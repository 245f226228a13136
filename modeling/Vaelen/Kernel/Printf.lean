import Vaelen.Base.Reading
import Vaelen.Kernel.Numbers

/-!
The formatted output of printf.c: the characters given to vga_putchar, and the places of the format that
are read. The arguments are the words above the format on the stack; an int is 32 bits wide and wraps.
-/

namespace Vaelen.Kernel.Printf
open Vaelen.Base Reading Numbers

def ch (c : Char) : Byte := BitVec.ofNat 8 c.toNat

/-- The bytes from a pointer on. -/
def view (memory : Mem) (p : Word) : Nat → Byte := fun k => memory (p + BitVec.ofNat 32 k)

/-! The strings that are printed, in arrays of `size` bytes; none past their ends. -/

def strlen (size : Nat) (str : Nat → Byte) : Option Word :=
  (scan (· ≠ 0) size str 0).map fun len => BitVec.ofNat 32 len

def putsLoop (str : Nat → Byte) : Nat → Nat → Option (List Byte)
  | 0, _ => none
  | left + 1, p => if str p = 0 then some [] else (putsLoop str left (p + 1)).map (str p :: ·)

def vgaPuts (size : Nat) (str : Nat → Byte) : Option (List Byte) := putsLoop str size 0

/-- `for (int i = len; i < width; i++) vga_putchar(c)` -/
def pad (len width : Word) (c : Byte) : List Byte := List.replicate (width.toInt - len.toInt).toNat c

/-- `pad_zero ? '0' : ' '` -/
def fill (padZero : Bool) : Byte := if padZero then ch '0' else ch ' '

/-! The conversions. -/

/-- `buf` is what the array on the stack held before. -/
def printfNumber (buf : Nat → Byte) (num : Word) (base : Int) (width : Word) (padZero : Bool) :
    Option (List Byte) := do
  let buf := itoa num buf base
  let len ← strlen 32 buf
  let digits ← vgaPuts 32 buf
  return pad len width (fill padZero) ++ digits

def printfSigned (buf : Nat → Byte) (num width : Word) (padZero : Bool) : Option (List Byte) :=
  if num.toInt < 0 then (printfNumber buf (-num) 10 (width - 1) padZero).map (ch '-' :: ·)
  else printfNumber buf num 10 width padZero

/-- The string of %s; the loops end at a zero of the address space, which has 2^32 bytes. -/
def printfString (memory : Mem) (str width : Word) : Option (List Byte) := do
  let str := if str = 0 then fun k => (Shell.chars "(null)").getD k 0 else view memory str
  let len ← strlen (2 ^ 32) str
  let text ← vgaPuts (2 ^ 32) str
  return pad len width (ch ' ') ++ text

/-- The switch: what is printed, and the arguments taken after it. -/
def convert (memory : Mem) (buf : Nat → Byte) (args : Nat → Word) (c : Byte) (width : Word) (padZero : Bool)
    (taken : Nat) : Option (List Byte × Nat) :=
  if c = ch 'd' ∨ c = ch 'i' then
    (printfSigned buf (args taken) width padZero).map fun text => (text, taken + 1)
  else if c = ch 'u' then
    (printfNumber buf (args taken) 10 width padZero).map fun text => (text, taken + 1)
  else if c = ch 'x' then
    (printfNumber buf (args taken) 16 width padZero).map fun text => (text, taken + 1)
  else if c = ch 'X' then
    (printfNumber buf (args taken) 16 width padZero).map fun text => (text, taken + 1)
  else if c = ch 'o' then
    (printfNumber buf (args taken) 8 width padZero).map fun text => (text, taken + 1)
  else if c = ch 'p' then
    (printfNumber buf (args taken) 16 8 true).map fun text => (ch '0' :: ch 'x' :: text, taken + 1)
  else if c = ch 's' then
    (printfString memory (args taken) width).map fun text => (text, taken + 1)
  else if c = ch 'c' then some ([(args taken).setWidth 8], taken + 1)
  else if c = ch '%' then some ([ch '%'], taken)
  else some ([ch '%', c], taken)

/-! The format. -/

def isDigit (c : Byte) : Bool := 0x30 ≤ c.toInt ∧ c.toInt ≤ 0x39

/-- The width and the place behind it. -/
def widthLoop : Nat → Nat → Word → Reading Nat Byte (Word × Nat)
  | 0, _, _ => stuck
  | left + 1, i, width => do
      let c ← read i
      if isDigit c then widthLoop left (i + 1) (width * 10 + BitVec.ofInt 32 (c.toInt - 0x30))
      else return (width, i)

/-- What stands between the percent and the conversion. -/
structure Directive where
  padZero : Bool
  width : Word
  place : Nat

def directive (left i : Nat) : Reading Nat Byte Directive := do
  let flag ← read i
  let (width, place) ← widthLoop left (if flag = ch '0' then i + 1 else i) 0
  return { padZero := flag = ch '0', width := width, place := place }

/-- The loop from place `i` of the format on, with so many arguments taken. Each turn reads `*fmt` once
for all its uses. -/
def printfLoop (memory : Mem) (buf : Nat → Byte) (args : Nat → Word) :
    Nat → Nat → Nat → Reading Nat Byte (List Byte)
  | 0, _, _ => stuck
  | left + 1, i, taken => do
      let c ← read i
      if c = 0 then return []
      else if c ≠ ch '%' then
        let rest ← printfLoop memory buf args left (i + 1) taken
        return c :: rest
      else
        let d ← directive left (i + 1)
        let c ← read d.place
        let shown ← lift (convert memory buf args c d.width d.padZero taken)
        let rest ← printfLoop memory buf args left (d.place + 1) shown.2
        return shown.1 ++ rest

/-- What `turns` turns of the loops print, and the places of the format that they read; none when they are
not enough. -/
def printf (memory : Mem) (buf : Nat → Byte) (fmt : Word) (args : Nat → Word) (turns : Nat) :
    Option (List Byte × List Nat) :=
  printfLoop memory buf args turns 0 0 (view memory fmt)

/-! The strings that are printed end. -/

variable {memory : Mem} {buf str f : Nat → Byte} {args : Nat → Word} {p size left i taken : Nat}
  {s ds rest : List Byte} {c : Byte}

theorem strlen_string (string : CString str 0 s) (room : s.length < size) :
    strlen size str = some (BitVec.ofNat 32 s.length) := by
  have whole : s.takeWhile (· ≠ 0) = s := by
    apply List.takeWhile_eq_self_iff.mpr
    intro c member
    exact decide_eq_true (string.nonzero c member)
  have scanned : scan (· ≠ 0) size str 0 = some (0 + (s.takeWhile (· ≠ 0)).length) := string.scan room (by decide)
  rw [whole, Nat.zero_add] at scanned
  rw [strlen, scanned]
  rfl

theorem putsLoop_string (string : CString str p s) (room : s.length < left) : putsLoop str left p = some s := by
  induction s generalizing p left with
  | nil =>
    cases left with
    | zero => omega
    | succ left =>
      have ends : str p = 0 := string
      rw [putsLoop, if_pos ends]
  | cons c s ih =>
    cases left with
    | zero => omega
    | succ left =>
      rw [putsLoop, if_neg string.head_nonzero, ih string.2.2 (Nat.lt_of_succ_lt_succ room), string.1]
      rfl

/-- Every pointer points to a string, as soon as there is a zero byte anywhere. -/
theorem view_string {zero : Word} (ends : memory zero = 0) (p : Word) :
    ∃ s, CString (view memory p) 0 s ∧ s.length < 2 ^ 32 := by
  have reached : view memory p (zero - p).toNat = 0 := by
    change memory (p + BitVec.ofNat 32 (zero - p).toNat) = 0
    rw [BitVec.ofNat_toNat, BitVec.setWidth_eq, BitVec.add_comm, BitVec.sub_add_cancel]
    exact ends
  have found : ∃ n, view memory p (0 + n) = 0 := ⟨_, by rwa [Nat.zero_add]⟩
  refine ⟨_, CString.of_range (Nat.find found) (fun k before => Nat.find_min found before) (Nat.find_spec found), ?_⟩
  rw [List.length_map, List.length_range]
  have first := Nat.find_min' found (by rwa [Nat.zero_add] : view memory p (0 + (zero - p).toNat) = 0)
  exact Nat.lt_of_le_of_lt first (zero - p).isLt

/-! The conversions return. -/

theorem numeral_length {base n : Nat} (eight : 8 ≤ base) (small : n < 2 ^ 32) : (numeral base n).length ≤ 11 := by
  unfold numeral
  split_ifs
  · decide
  · rw [List.length_reverse]
    apply (Nat.digits_length_le_iff (by omega) n).mpr
    calc
      n < 2 ^ 32 := small
      _ ≤ 8 ^ 11 := by decide
      _ ≤ base ^ 11 := Nat.pow_le_pow_left eight 11

theorem numeralText_length {base : Int} (eight : 8 ≤ base) (num : Word) : (numeralText base num).length ≤ 12 := by
  unfold numeralText signedNumeral unsignedNumeral
  have ten : (8 : Nat) ≤ 10 := by decide
  have size := num.isLt
  split_ifs with decimal negative
  · rw [natAbs_negative negative, List.length_cons, List.length_map]
    exact Nat.succ_le_succ (numeral_length ten (-num).isLt)
  · rw [List.length_map]
    exact (numeral_length ten size).trans (by decide)
  · rw [List.length_map]
    exact (numeral_length (by omega) size).trans (by decide)

/-- printf_number pads what itoa writes. -/
theorem printfNumber_eq (buf : Nat → Byte) (num : Word) {base : Int} (eight : 8 ≤ base) (small : base ≤ 36)
    (width : Word) (padZero : Bool) :
    printfNumber buf num base width padZero =
      some (pad (BitVec.ofNat 32 (numeralText base num).length) width (fill padZero) ++ numeralText base num) := by
  have string := itoa_string num buf base (by omega) small
  have room : (numeralText base num).length < 32 := Nat.lt_of_le_of_lt (numeralText_length eight num) (by decide)
  have puts : vgaPuts 32 (itoa num buf base) = some (numeralText base num) := putsLoop_string string room
  rw [printfNumber, strlen_string string room, puts]
  rfl

theorem printfSigned_eq (buf : Nat → Byte) (num width : Word) (padZero : Bool) :
    printfSigned buf num width padZero =
      some (if num.toInt < 0 then
          ch '-' :: (pad (BitVec.ofNat 32 (signedNumeral (-num)).length) (width - 1) (fill padZero) ++
            signedNumeral (-num))
        else pad (BitVec.ofNat 32 (signedNumeral num).length) width (fill padZero) ++ signedNumeral num) := by
  have numbers := fun num width => printfNumber_eq buf num (by decide : (8 : Int) ≤ 10) (by decide) width padZero
  unfold printfSigned
  by_cases negative : num.toInt < 0
  · rw [if_pos negative, if_pos negative, numbers]
    rfl
  · rw [if_neg negative, if_neg negative]
    exact numbers num width

/-- The string behind spaces. -/
theorem printfString_eq {p : Word}
    (string : CString (if p = 0 then fun k => (Shell.chars "(null)").getD k 0 else view memory p) 0 s)
    (room : s.length < 2 ^ 32) (width : Word) :
    printfString memory p width = some (pad (BitVec.ofNat 32 s.length) width (ch ' ') ++ s) := by
  have puts : vgaPuts (2 ^ 32) _ = some s := putsLoop_string string room
  rw [printfString, strlen_string string room]
  change (vgaPuts (2 ^ 32) _).bind _ = _
  rw [puts]
  rfl

theorem null_string : CString (fun k => (Shell.chars "(null)").getD k 0) 0 (Shell.chars "(null)") := by
  simp [CString, Shell.chars]

theorem printfString_some {zero : Word} (ends : memory zero = 0) (p width : Word) :
    ∃ text, printfString memory p width = some text := by
  by_cases null : p = 0
  · refine ⟨_, printfString_eq (s := Shell.chars "(null)") ?_ (by decide) width⟩
    rw [if_pos null]
    exact null_string
  · obtain ⟨s, string, room⟩ := view_string ends p
    refine ⟨_, printfString_eq ?_ room width⟩
    rw [if_neg null]
    exact string

theorem ite_some {α : Type} {p : Prop} [Decidable p] {yes no : Option α} (first : ∃ a, yes = some a)
    (second : ∃ a, no = some a) : ∃ a, (if p then yes else no) = some a := by
  split_ifs
  · exact first
  · exact second

theorem map_some {α γ : Type} {result : Option α} {a : α} (found : result = some a) (f : α → γ) :
    ∃ b, result.map f = some b :=
  ⟨f a, found ▸ rfl⟩

/-- Every conversion ends when some byte of memory is zero. -/
theorem convert_some {zero : Word} (ends : memory zero = 0) (buf : Nat → Byte) (args : Nat → Word) (c : Byte)
    (width : Word) (padZero : Bool) (taken : Nat) :
    ∃ shown, convert memory buf args c width padZero taken = some shown := by
  obtain ⟨text, string⟩ := printfString_some ends (args taken) width
  have number := fun (base : Int) (eight : 8 ≤ base) (small : base ≤ 36) =>
    printfNumber_eq buf (args taken) eight small
  have signed := printfSigned_eq buf (args taken) width padZero
  apply ite_some (map_some signed _)
  apply ite_some (map_some (number 10 (by decide) (by decide) width padZero) _)
  apply ite_some (map_some (number 16 (by decide) (by decide) width padZero) _)
  apply ite_some (map_some (number 16 (by decide) (by decide) width padZero) _)
  apply ite_some (map_some (number 8 (by decide) (by decide) width padZero) _)
  apply ite_some (map_some (number 16 (by decide) (by decide) 8 true) _)
  apply ite_some (map_some string _)
  apply ite_some ⟨_, rfl⟩
  exact ite_some ⟨_, rfl⟩ ⟨_, rfl⟩

/-! One directive of the format. -/

/-- The width that digits make after another one. -/
def widthFrom (width : Word) (ds : List Byte) : Word :=
  ds.foldl (fun width c => width * 10 + BitVec.ofInt 32 (c.toInt - 0x30)) width

theorem widthLoop_returns (string : CString f i s) (room : s.length < left) (width : Word) :
    Returns (widthLoop left i width) f (· ≤ i + (s.takeWhile isDigit).length)
      (widthFrom width (s.takeWhile isDigit), i + (s.takeWhile isDigit).length) := by
  induction s generalizing i left width with
  | nil =>
    cases left with
    | zero => omega
    | succ left =>
      have ends : f i = 0 := string
      refine Returns.then_read (k := i) ?_ ?_
      · exact Nat.le_add_right i _
      · rw [ends]
        exact returns_pure _
  | cons c s ih =>
    cases left with
    | zero => omega
    | succ left =>
      refine Returns.then_read (k := i) ?_ ?_
      · exact Nat.le_add_right i _
      · rw [string.1, List.takeWhile_cons]
        cases digit : isDigit c with
        | false => exact returns_pure _
        | true =>
          have later := ih string.2.2 (Nat.lt_of_succ_lt_succ room) (width * 10 + BitVec.ofInt 32 (c.toInt - 0x30))
          have place : i + 1 + (s.takeWhile isDigit).length = i + (c :: s.takeWhile isDigit).length := by
            rw [List.length_cons]
            omega
          rw [place] at later
          exact later

/-- The flag is a digit of the width too, and adds nothing to it. -/
theorem flag_of_width (i : Nat) (s : List Byte) :
    i + 1 + (s.takeWhile isDigit).length = i + ((ch '0' :: s).takeWhile isDigit).length ∧
      widthFrom 0 (s.takeWhile isDigit) = widthFrom 0 ((ch '0' :: s).takeWhile isDigit) := by
  rw [List.takeWhile_cons_of_pos (by decide : isDigit (ch '0') = true), List.length_cons]
  exact ⟨by omega, rfl⟩

theorem directive_returns (string : CString f i s) (room : s.length < left) :
    Returns (directive left i) f (· ≤ i + (s.takeWhile isDigit).length)
      { padZero := s.head? = some (ch '0'), width := widthFrom 0 (s.takeWhile isDigit),
        place := i + (s.takeWhile isDigit).length } := by
  refine Returns.then_read (k := i) ?_ ?_
  · exact Nat.le_add_right i _
  cases s with
  | nil =>
    have ends : f i = 0 := string
    rw [ends]
    exact (widthLoop_returns string room 0).bind (returns_pure _)
  | cons c s =>
    rw [string.1, List.head?_cons]
    by_cases flag : c = ch '0'
    · obtain ⟨place, width⟩ := flag_of_width i s
      have later := widthLoop_returns string.2.2 (Nat.lt_of_succ_lt room) 0
      rw [place, width] at later
      rw [if_pos flag, flag]
      exact later.bind (returns_pure _)
    · rw [if_neg flag]
      apply (widthLoop_returns string room 0).bind
      simp only [flag, Option.some.injEq]
      exact returns_pure _

/-- Whatever the turns, a width that has ended is that of the digits. -/
theorem widthLoop_ended (string : CString f i s) {width : Word} {result : Word × Nat} {reads : List Nat}
    (ended : widthLoop left i width f = some (result, reads)) :
    result = (widthFrom width (s.takeWhile isDigit), i + (s.takeWhile isDigit).length) := by
  induction left generalizing i s width reads with
  | zero => exact absurd ended (Option.some_ne_none _).symm
  | succ left ih =>
    obtain ⟨c, first, second, read, finished, _⟩ := bind_ended (m := Reading.read i) ended
    have char : f i = c := congrArg Prod.fst (Option.some.inj read)
    cases s with
    | nil =>
      have ends : f i = 0 := string
      rw [← char, ends] at finished
      exact (congrArg Prod.fst (Option.some.inj finished)).symm
    | cons d s =>
      rw [string.1] at char
      subst char
      rw [List.takeWhile_cons]
      cases digit : isDigit d with
      | false =>
        rw [digit] at finished
        exact (congrArg Prod.fst (Option.some.inj finished)).symm
      | true =>
        rw [digit] at finished
        have place : i + 1 + (s.takeWhile isDigit).length = i + (d :: s.takeWhile isDigit).length := by
          rw [List.length_cons]
          omega
        rw [ih string.2.2 finished, if_pos rfl, place]
        rfl

theorem directive_ended (string : CString f i s) {d : Directive} {reads : List Nat}
    (ended : directive left i f = some (d, reads)) :
    d = { padZero := s.head? = some (ch '0'), width := widthFrom 0 (s.takeWhile isDigit),
          place := i + (s.takeWhile isDigit).length } := by
  obtain ⟨flag, first, second, read, more, _⟩ := bind_ended (m := Reading.read i) ended
  obtain ⟨width, third, fourth, looped, finished, _⟩ := bind_ended more
  have char : f i = flag := congrArg Prod.fst (Option.some.inj read)
  have made : d = { padZero := flag = ch '0', width := width.1, place := width.2 } :=
    (congrArg Prod.fst (Option.some.inj finished)).symm
  rw [made]
  cases s with
  | nil =>
    have ends : f i = 0 := string
    rw [ends] at char
    subst char
    rw [widthLoop_ended string looped]
    rfl
  | cons c s =>
    rw [string.1] at char
    subst char
    rw [List.head?_cons]
    simp only [Option.some.injEq]
    by_cases zero : c = ch '0'
    · obtain ⟨place, width⟩ := flag_of_width i s
      rw [if_pos zero] at looped
      rw [widthLoop_ended string.2.2 looped, place, width, zero]
    · rw [if_neg zero] at looped
      rw [widthLoop_ended string looped]

/-! The loop over the format. -/

/-- The formats that do not end inside a directive. -/
inductive Complete : List Byte → Prop
  | done : Complete []
  | plain {c : Byte} {rest : List Byte} (other : c ≠ ch '%') (more : Complete rest) : Complete (c :: rest)
  | directive {ds : List Byte} {c : Byte} {rest : List Byte} (digits : ∀ d ∈ ds, isDigit d)
      (ends : isDigit c = false) (more : Complete rest) : Complete (ch '%' :: (ds ++ c :: rest))

theorem printfLoop_plain (string : CString f i (c :: s)) (other : c ≠ ch '%') {within : Nat → Prop}
    (inside : within i) {out : List Byte} (rest : Returns (printfLoop memory buf args left (i + 1) taken) f within out) :
    Returns (printfLoop memory buf args (left + 1) i taken) f within (c :: out) := by
  refine Returns.then_read (k := i) inside ?_
  rw [string.1, if_neg string.2.1, if_pos other]
  exact rest.bind (returns_pure _)

/-- A directive is replaced by what its conversion shows. -/
theorem printfLoop_directive (string : CString f i (ch '%' :: s)) (room : s.length < left) {within : Nat → Prop}
    (inside : ∀ k ≤ i + 1 + (s.takeWhile isDigit).length, within k) {shown : List Byte × Nat}
    (converted : convert memory buf args (f (i + 1 + (s.takeWhile isDigit).length))
      (widthFrom 0 (s.takeWhile isDigit)) (s.head? = some (ch '0')) taken = some shown) {out : List Byte}
    (rest : Returns (printfLoop memory buf args left (i + 1 + (s.takeWhile isDigit).length + 1) shown.2) f within out) :
    Returns (printfLoop memory buf args (left + 1) i taken) f within (shown.1 ++ out) := by
  refine Returns.then_read (k := i) (inside i (by omega)) ?_
  rw [string.1, if_neg string.2.1, if_neg (not_not.mpr rfl)]
  apply ((directive_returns string.2.2 room).mono inside).bind
  apply Returns.then_read (inside _ le_rfl)
  apply Returns.bind (returns_lift converted)
  exact rest.bind (returns_pure _)

theorem takeWhile_digits (digits : ∀ d ∈ ds, isDigit d) (ends : isDigit c = false) (rest : List Byte) :
    (ds ++ c :: rest).takeWhile isDigit = ds := by
  rw [List.takeWhile_append_of_pos digits, List.takeWhile_cons, ends]
  exact List.append_nil ds

/-- A complete format is read up to its end and no further. -/
theorem complete_returns (complete : Complete s) {zero : Word} (none : memory zero = 0) (string : CString f i s)
    (room : s.length < left) (taken : Nat) :
    ∃ out, Returns (printfLoop memory buf args left i taken) f (· ≤ i + s.length) out := by
  induction complete generalizing i left taken with
  | done =>
    cases left with
    | zero => omega
    | succ left =>
      have ends : f i = 0 := string
      refine ⟨[], Returns.then_read (k := i) (Nat.le_add_right i _) ?_⟩
      rw [ends]
      exact returns_pure _
  | @plain c rest other more ih =>
    cases left with
    | zero => omega
    | succ left =>
      obtain ⟨out, later⟩ := ih string.2.2 (Nat.lt_of_succ_lt_succ room) taken
      have place : i + 1 + rest.length = i + (c :: rest).length := by
        rw [List.length_cons]
        omega
      rw [place] at later
      exact ⟨c :: out, printfLoop_plain string other (Nat.le_add_right i _) later⟩
  | @directive ds c rest digits ends more ih =>
    cases left with
    | zero => omega
    | succ left =>
      have taking := takeWhile_digits digits ends rest
      have tail : CString f (i + 1 + ds.length + 1) rest := string.2.2.suffix.2.2
      rw [List.length_cons, List.length_append, List.length_cons] at room
      obtain ⟨shown, converted⟩ := convert_some none buf args (f (i + 1 + ds.length)) (widthFrom 0 ds)
        ((ds ++ c :: rest).head? = some (ch '0')) taken
      obtain ⟨out, later⟩ := ih tail (by omega : rest.length < left) shown.2
      have place : i + 1 + ds.length + 1 + rest.length = i + (ch '%' :: (ds ++ c :: rest)).length := by
        rw [List.length_cons, List.length_append, List.length_cons]
        omega
      rw [place] at later
      refine ⟨shown.1 ++ out, printfLoop_directive string ?_ ?_ ?_ ?_⟩
      · rw [List.length_append, List.length_cons]
        omega
      · intro k before
        rw [taking] at before
        omega
      · rw [taking]
        exact converted
      · rw [taking]
        exact later

/-- A turn begins with a read. -/
theorem printfLoop_reads (memory : Mem) (buf : Nat → Byte) (args : Nat → Word) (f : Nat → Byte)
    (left i taken : Nat) : MustRead (printfLoop memory buf args left i taken) f i := by
  cases left with
  | zero => exact mustRead_stuck i
  | succ left => exact MustRead.bind (mustRead_read i)

/-- What stands behind a directive of an incomplete format is incomplete. -/
theorem incomplete_rest (incomplete : ¬Complete (ch '%' :: s)) (behind : s.dropWhile isDigit = c :: rest) :
    ¬Complete rest := by
  intro complete
  have parts : s.takeWhile isDigit ++ s.dropWhile isDigit = s := List.takeWhile_append_dropWhile
  have stops := List.head_dropWhile_not isDigit (by rw [behind]; exact List.cons_ne_nil c rest)
  simp only [behind, List.head_cons] at stops
  rw [behind] at parts
  rw [← parts] at incomplete
  have digits : ∀ d ∈ s.takeWhile isDigit, isDigit d := fun d member => List.all_eq_true.mp List.all_takeWhile d member
  exact incomplete (Complete.directive digits stops complete)

/-- A directive that the end of the format cuts off steps over the end. -/
theorem incomplete_reads (incomplete : ¬Complete s) (string : CString f i s) :
    MustRead (printfLoop memory buf args left i taken) f (i + s.length + 1) := by
  induction left generalizing i s taken with
  | zero => exact mustRead_stuck _
  | succ left ih =>
    cases s with
    | nil => exact absurd Complete.done incomplete
    | cons c s =>
      apply MustRead.then_read
      rw [string.1, if_neg string.2.1, List.length_cons, ← Nat.add_assoc]
      by_cases percent : c = ch '%'
      · subst percent
        rw [if_neg (not_not.mpr rfl)]
        apply MustRead.after
        intro d reads ended
        apply MustRead.then_read
        apply MustRead.after
        intro shown _ _
        apply MustRead.bind
        rw [directive_ended string.2.2 ended]
        have parts : s.takeWhile isDigit ++ s.dropWhile isDigit = s := List.takeWhile_append_dropWhile
        cases behind : s.dropWhile isDigit with
        | nil =>
          -- The end itself was taken for the conversion.
          rw [behind, List.append_nil] at parts
          rw [parts, Nat.add_right_comm i 1]
          exact printfLoop_reads _ _ _ _ _ _ _
        | cons b rest =>
          rw [behind] at parts
          have tail : CString f (i + 1) (s.takeWhile isDigit ++ b :: rest) := by
            rw [parts]
            exact string.2.2
          have place : i + 1 + (s.takeWhile isDigit).length + 1 + rest.length + 1 = i + s.length + 1 + 1 := by
            have lengths := congrArg List.length parts
            rw [List.length_append, List.length_cons] at lengths
            omega
          rw [← place]
          exact ih (incomplete_rest incomplete behind) tail.suffix.2.2
      · rw [if_pos percent]
        have later : ¬Complete s := fun complete => incomplete (Complete.plain percent complete)
        have place : i + 1 + s.length + 1 = i + s.length + 1 + 1 := by omega
        rw [← place]
        exact MustRead.bind (ih later string.2.2)

/-- printf ends without reading behind the end of its format exactly when the format does not end inside a
directive. -/
theorem printf_inside_iff (memory : Mem) (buf : Nat → Byte) (fmt : Word) (args : Nat → Word) (s : List Byte)
    (string : CString (view memory fmt) 0 s) :
    (∃ turns out reads, printf memory buf fmt args turns = some (out, reads) ∧ ∀ k ∈ reads, k ≤ s.length) ↔
      Complete s := by
  constructor
  · rintro ⟨turns, out, reads, ended, inside⟩
    by_contra incomplete
    have read := incomplete_reads incomplete string out reads ended
    have bound := inside _ read
    omega
  · intro complete
    obtain ⟨out, reads, ended, inside⟩ := complete_returns complete string.ends string (Nat.lt_succ_self _) 0
    refine ⟨_, out, reads, ended, fun k member => ?_⟩
    have bound := inside k member
    rwa [Nat.zero_add] at bound

/-- The format "%5d". -/
def widthFormat : Mem := fun a => [ch '%', ch '5', ch 'd'].getD a.toNat 0

theorem printf_inside_iff_width :
    ∃ turns out reads, printf widthFormat (fun _ => 0) 0 (fun _ => 42) turns = some (out, reads) ∧
      ∀ k ∈ reads, k ≤ 3 := by
  apply (printf_inside_iff widthFormat (fun _ => 0) 0 (fun _ => 42) [ch '%', ch '5', ch 'd']
    ⟨rfl, by decide, rfl, by decide, rfl, by decide, rfl⟩).mpr
  exact @Complete.directive [ch '5'] (ch 'd') [] (by decide) (by decide) .done

theorem not_complete_percent : ¬Complete [ch '%'] := by
  intro complete
  generalize whole : [ch '%'] = s at complete
  cases complete with
  | done => exact absurd whole (by simp)
  | plain other more => exact other (List.cons.inj whole).1.symm
  | directive digits ends more => exact absurd (List.cons.inj whole).2 (by simp)

/-- A percent alone. -/
theorem printf_not_inside :
    ¬∀ (memory : Mem) (buf : Nat → Byte) (fmt : Word) (args : Nat → Word) (s : List Byte),
      CString (view memory fmt) 0 s →
        ∃ turns out reads, printf memory buf fmt args turns = some (out, reads) ∧ ∀ k ∈ reads, k ≤ s.length := by
  intro claim
  have string : CString (view (fun a => if a = 0 then ch '%' else 0) 0) 0 [ch '%'] := ⟨rfl, by decide, rfl⟩
  obtain ⟨turns, out, reads, ended, inside⟩ := claim _ (fun _ => 0) 0 (fun _ => 0) _ string
  have bound := inside _ (incomplete_reads not_complete_percent string out reads ended)
  exact absurd bound (by decide)

/-! The numbers that are printed. -/

inductive Conversion where
  | d | i | u | x | o
  deriving DecidableEq, Repr

namespace Conversion

def char : Conversion → Byte
  | .d => ch 'd'
  | .i => ch 'i'
  | .u => ch 'u'
  | .x => ch 'x'
  | .o => ch 'o'

def sign : Conversion → Word → List Byte
  | .d, v | .i, v => if v.toInt < 0 then [ch '-'] else []
  | .u, _ | .x, _ | .o, _ => []

/-- The canonical digits. -/
def digits : Conversion → Word → List Byte
  | .d, v | .i, v => unsignedNumeral 10 v.toInt.natAbs
  | .u, v => unsignedNumeral 10 v.toNat
  | .x, v => unsignedNumeral 16 v.toNat
  | .o, v => unsignedNumeral 8 v.toNat

end Conversion

/-- The numeral, padded on the left by spaces, or by zeros behind the sign. -/
def padded (conv : Conversion) (width : Int) (padZero : Bool) (v : Word) : List Byte :=
  let missing := (width - (conv.sign v ++ conv.digits v).length).toNat
  if padZero then conv.sign v ++ List.replicate missing (ch '0') ++ conv.digits v
  else List.replicate missing (ch ' ') ++ conv.sign v ++ conv.digits v

/-- When a conversion is correct. The most negative width does not stand in a format, but digits that
overflow can make it. -/
def Correct (conv : Conversion) (width : Word) (padZero : Bool) (v : Word) : Prop :=
  match conv with
  | .d | .i =>
      0 ≤ v.toInt ∨ v ≠ 0x80000000 ∧ width ≠ 0x80000000 ∧
        (padZero ∨ width.toInt ≤ (conv.sign v ++ conv.digits v).length)
  | .u => 0 ≤ v.toInt
  | .x | .o => True

/-- What the switch prints. -/
def rendered (conv : Conversion) (width : Word) (padZero : Bool) (v : Word) : List Byte :=
  let number base num width :=
    pad (BitVec.ofNat 32 (numeralText base num).length) width (fill padZero) ++ numeralText base num
  match conv with
  | .d | .i => if v.toInt < 0 then ch '-' :: number 10 (-v) (width - 1) else number 10 v width
  | .u => number 10 v width
  | .x => number 16 v width
  | .o => number 8 v width

theorem convert_number (memory : Mem) (buf : Nat → Byte) (args : Nat → Word) (conv : Conversion) (width : Word)
    (padZero : Bool) (taken : Nat) :
    convert memory buf args conv.char width padZero taken =
      some (rendered conv width padZero (args taken), taken + 1) := by
  have signed : printfSigned buf (args taken) width padZero = some (rendered .d width padZero (args taken)) :=
    printfSigned_eq buf (args taken) width padZero
  have number := fun (base : Int) (eight : 8 ≤ base) (small : base ≤ 36) =>
    printfNumber_eq buf (args taken) eight small width padZero
  cases conv with
  | d | i =>
    change (printfSigned buf (args taken) width padZero).map _ = _
    rw [signed]
    rfl
  | u =>
    change (printfNumber buf (args taken) 10 width padZero).map _ = _
    rw [number 10 (by decide) (by decide)]
    rfl
  | x =>
    change (printfNumber buf (args taken) 16 width padZero).map _ = _
    rw [number 16 (by decide) (by decide)]
    rfl
  | o =>
    change (printfNumber buf (args taken) 8 width padZero).map _ = _
    rw [number 8 (by decide) (by decide)]
    rfl

variable {width v : Word} {padZero : Bool}

theorem pad_short {n : Nat} (short : n ≤ 12) (width : Word) (c : Byte) :
    pad (BitVec.ofNat 32 n) width c = List.replicate (width.toInt - n).toNat c := by
  have length : (BitVec.ofNat 32 n).toInt = n := by
    have small : n < 2 ^ 32 := by omega
    rw [BitVec.toInt_eq_toNat_cond, BitVec.toNat_ofNat, Nat.mod_eq_of_lt small, if_pos (by omega)]
  rw [pad, length]

theorem minus_free {base : Nat} (two : 2 ≤ base) (small : base ≤ 36) (n : Nat) : ch '-' ∉ unsignedNumeral base n := by
  intro member
  obtain ⟨d, digit, char⟩ := List.mem_map.mp member
  exact (digitChar_plain d (Nat.lt_of_lt_of_le (numeral_lt two digit) small)).2.1 char

/-- Without a sign both flags pad in front. -/
theorem padded_unsigned {conv : Conversion} (none : conv.sign v = []) (width : Int) (padZero : Bool) :
    padded conv width padZero v =
      List.replicate (width - (conv.digits v).length).toNat (fill padZero) ++ conv.digits v := by
  rw [padded, none, List.nil_append]
  cases padZero with
  | false => exact congrArg (· ++ conv.digits v) (List.append_nil _)
  | true => rfl

theorem sign_cases (conv : Conversion) (v : Word) : conv.sign v = [] ∨ conv.sign v = [ch '-'] := by
  have signed : (if v.toInt < 0 then [ch '-'] else []) = [] ∨
      (if v.toInt < 0 then [ch '-'] else []) = [ch '-'] := by
    split_ifs
    · exact Or.inr rfl
    · exact Or.inl rfl
  cases conv with
  | d | i => exact signed
  | u | x | o => exact Or.inl rfl

/-- A minus sign is printed only once. -/
theorem count_padded (conv : Conversion) (width : Int) (padZero : Bool) (v : Word) :
    (padded conv width padZero v).count (ch '-') = (conv.sign v).length := by
  have digits : (conv.digits v).count (ch '-') = 0 := by
    apply List.count_eq_zero.mpr
    cases conv <;> exact minus_free (by decide) (by decide) _
  have sign : (conv.sign v).count (ch '-') = (conv.sign v).length := by
    rcases sign_cases conv v with none | minus
    · rw [none]
      rfl
    · rw [minus]
      rfl
  have zeros : ∀ n, (List.replicate n (ch '0')).count (ch '-') = 0 := fun n => by
    rw [List.count_replicate, if_neg (by decide)]
  have spaces : ∀ n, (List.replicate n (ch ' ')).count (ch '-') = 0 := fun n => by
    rw [List.count_replicate, if_neg (by decide)]
  unfold padded
  cases padZero with
  | false =>
    rw [if_neg (by decide), List.count_append, List.count_append, digits, sign, spaces]
    omega
  | true =>
    rw [if_pos rfl, List.count_append, List.count_append, digits, sign, zeros]
    rfl

theorem signedNumeral_nonneg (positive : 0 ≤ v.toInt) : signedNumeral v = unsignedNumeral 10 v.toInt.natAbs := by
  have same : v.toInt.natAbs = v.toNat := by
    rw [BitVec.toInt_eq_toNat_cond] at positive ⊢
    split_ifs at positive ⊢ <;> omega
  rw [signedNumeral, if_neg (Int.not_lt.mpr positive), same]

/-- The numeral of a value below zero, which stands twice for the most negative one. -/
theorem signedNumeral_neg (negative : v.toInt < 0) :
    signedNumeral (-v) =
      if v = 0x80000000 then ch '-' :: unsignedNumeral 10 v.toInt.natAbs else unsignedNumeral 10 v.toInt.natAbs := by
  have same := natAbs_negative negative
  by_cases least : v = 0x80000000
  · rw [if_pos least, least]
    rfl
  · rw [if_neg least, same]
    have positive : ¬(-v).toInt < 0 := by
      rw [BitVec.toInt_eq_toNat_cond] at negative ⊢
      split_ifs at negative ⊢
      all_goals bv_omega
    rw [signedNumeral, if_neg positive]

theorem padded_neg (negative : v.toInt < 0) (width : Int) (padZero : Bool) :
    padded .d width padZero v =
      if padZero then
        ch '-' :: (List.replicate (width - 1 - (unsignedNumeral 10 v.toInt.natAbs).length).toNat (ch '0') ++
          unsignedNumeral 10 v.toInt.natAbs)
      else
        List.replicate (width - 1 - (unsignedNumeral 10 v.toInt.natAbs).length).toNat (ch ' ') ++
          ch '-' :: unsignedNumeral 10 v.toInt.natAbs := by
  have sign : Conversion.sign .d v = [ch '-'] := if_pos negative
  have missing : width - (([ch '-'] ++ Conversion.digits .d v).length : Nat) =
      width - 1 - (unsignedNumeral 10 v.toInt.natAbs).length := by
    change width - (((unsignedNumeral 10 v.toInt.natAbs).length + 1 : Nat) : Int) = _
    omega
  rw [padded, sign, missing]
  cases padZero with
  | false =>
    rw [if_neg (by decide), if_neg (by decide), List.append_assoc]
    rfl
  | true => rfl

/-- What is printed for a value below zero: its sign, then the numeral of what the negation leaves. -/
theorem rendered_neg (negative : v.toInt < 0) :
    rendered .d width padZero v =
      ch '-' :: (List.replicate ((width - 1).toInt - (signedNumeral (-v)).length).toNat (fill padZero) ++
        signedNumeral (-v)) := by
  have printed : rendered .d width padZero v =
      ch '-' :: (pad (BitVec.ofNat 32 (signedNumeral (-v)).length) (width - 1) (fill padZero) ++ signedNumeral (-v)) :=
    if_pos negative
  have size : (signedNumeral (-v)).length ≤ 12 := numeralText_length (by decide : (8 : Int) ≤ 10) (-v)
  rw [printed, pad_short size]

/-- The most negative value gets its sign twice. -/
theorem rendered_least_ne (width : Word) (padZero : Bool) (places : Int) :
    rendered .d width padZero 0x80000000 ≠ padded .d places padZero 0x80000000 := by
  intro same
  have negative : (0x80000000 : Word).toInt < 0 := by decide
  have signs := congrArg (List.count (ch '-')) same
  rw [rendered_neg negative, signedNumeral_neg negative, if_pos rfl, count_padded, List.count_cons_self,
    List.count_append, List.count_cons_self] at signs
  change _ = 1 at signs
  omega

/-- The most negative width, made less by one for the sign, wraps to the greatest. -/
theorem rendered_wraps_ne (negative : v.toInt < 0) (least : v ≠ 0x80000000) (padZero : Bool) :
    rendered .d 0x80000000 padZero v ≠ padded .d (0x80000000 : Word).toInt padZero v := by
  intro same
  have lengths := congrArg List.length same
  have size : (signedNumeral (-v)).length ≤ 12 := numeralText_length (by decide : (8 : Int) ≤ 10) (-v)
  rw [signedNumeral_neg negative, if_neg least] at size
  have below : ((0x80000000 : Word) - 1).toInt = 2147483647 := by decide
  have negated : (0x80000000 : Word).toInt = -2147483648 := by decide
  rw [rendered_neg negative, signedNumeral_neg negative, if_neg least, padded_neg negative, below, negated,
    List.length_cons, List.length_append, List.length_replicate] at lengths
  cases padZero <;> simp at lengths <;> omega

theorem width_pred (wraps : width ≠ 0x80000000) : (width - 1).toInt = width.toInt - 1 := by
  rw [BitVec.toInt_eq_toNat_cond, BitVec.toInt_eq_toNat_cond]
  split_ifs <;> bv_omega

/-- Spaces come between the sign and the digits, so there must be none. -/
theorem rendered_spaces_iff (negative : v.toInt < 0) (least : v ≠ 0x80000000) (wraps : width ≠ 0x80000000) :
    rendered .d width false v = padded .d width.toInt false v ↔
      width.toInt ≤ (Conversion.sign .d v ++ Conversion.digits .d v).length := by
  have length : (Conversion.sign .d v ++ Conversion.digits .d v).length =
      (unsignedNumeral 10 v.toInt.natAbs).length + 1 := by
    have sign : Conversion.sign .d v = [ch '-'] := if_pos negative
    rw [sign]
    rfl
  rw [rendered_neg negative, signedNumeral_neg negative, if_neg least, padded_neg negative, width_pred wraps,
    if_neg (by decide), length]
  by_cases fits : width.toInt ≤ ((unsignedNumeral 10 v.toInt.natAbs).length + 1 : Nat)
  · have none : (width.toInt - 1 - (unsignedNumeral 10 v.toInt.natAbs).length).toNat = 0 := by omega
    rw [none]
    exact ⟨fun _ => fits, fun _ => rfl⟩
  · obtain ⟨n, some⟩ : ∃ n, (width.toInt - 1 - (unsignedNumeral 10 v.toInt.natAbs).length).toNat = n + 1 :=
      Nat.exists_eq_succ_of_ne_zero (by omega)
    rw [some, List.replicate_succ]
    constructor
    · intro same
      have first := (List.cons.inj same).1
      exact absurd first (by decide)
    · exact fun narrow => absurd narrow fits

/-- A value below zero is printed right unless it is the most negative one, or spaces come between its sign
and its digits, or the width wraps. -/
theorem rendered_neg_iff (negative : v.toInt < 0) :
    rendered .d width padZero v = padded .d width.toInt padZero v ↔
      v ≠ 0x80000000 ∧ width ≠ 0x80000000 ∧
        (padZero ∨ width.toInt ≤ (Conversion.sign .d v ++ Conversion.digits .d v).length) := by
  by_cases least : v = 0x80000000
  · subst least
    exact ⟨fun same => absurd same (rendered_least_ne width padZero _), fun right => absurd rfl right.1⟩
  · by_cases wraps : width = 0x80000000
    · subst wraps
      exact ⟨fun same => absurd same (rendered_wraps_ne negative least padZero), fun right => absurd rfl right.2.1⟩
    · cases padZero with
      | false =>
        rw [rendered_spaces_iff negative least wraps]
        constructor
        · exact fun fits => ⟨least, wraps, Or.inr fits⟩
        · rintro ⟨_, _, zero | fits⟩
          · exact absurd zero (by decide)
          · exact fits
      | true =>
        -- The zeros stand behind the sign, where they belong.
        have same : rendered .d width true v = padded .d width.toInt true v := by
          rw [rendered_neg negative, signedNumeral_neg negative, if_neg least, padded_neg negative, width_pred wraps]
          rfl
        exact ⟨fun _ => ⟨least, wraps, Or.inl rfl⟩, fun _ => same⟩

/-- A numeral without a sign is printed right. -/
theorem rendered_unsigned {conv : Conversion} {base : Int} (eight : 8 ≤ base)
    (printed : rendered conv width padZero v =
      pad (BitVec.ofNat 32 (numeralText base v).length) width (fill padZero) ++ numeralText base v)
    (none : conv.sign v = []) (same : numeralText base v = conv.digits v) :
    rendered conv width padZero v = padded conv width.toInt padZero v := by
  rw [printed, pad_short (numeralText_length eight v), padded_unsigned none, same]

theorem rendered_signed_iff (width : Word) (padZero : Bool) (v : Word) :
    rendered .d width padZero v = padded .d width.toInt padZero v ↔ Correct .d width padZero v := by
  by_cases negative : v.toInt < 0
  · have below : ¬0 ≤ v.toInt := Int.not_le.mpr negative
    rw [rendered_neg_iff negative]
    exact (or_iff_right below).symm
  · have positive : 0 ≤ v.toInt := Int.not_lt.mp negative
    have printed : rendered .d width padZero v =
        pad (BitVec.ofNat 32 (numeralText 10 v).length) width (fill padZero) ++ numeralText 10 v := if_neg negative
    have none : Conversion.sign .d v = [] := if_neg negative
    have same : numeralText 10 v = Conversion.digits .d v := signedNumeral_nonneg positive
    exact ⟨fun _ => Or.inl positive, fun _ => rendered_unsigned (by decide) printed none same⟩

/-- What the switch prints for a number is its padded numeral exactly when the conversion is correct. -/
theorem rendered_iff (conv : Conversion) (width : Word) (padZero : Bool) (v : Word) :
    rendered conv width padZero v = padded conv width.toInt padZero v ↔ Correct conv width padZero v := by
  cases conv with
  | d => exact rendered_signed_iff width padZero v
  | i => exact rendered_signed_iff width padZero v
  | u =>
    by_cases negative : v.toInt < 0
    · -- A minus sign is printed that should not be there.
      constructor
      · intro same
        have signs := congrArg (List.count (ch '-')) same
        have text : numeralText 10 v = ch '-' :: unsignedNumeral 10 v.toInt.natAbs := if_pos negative
        have printed : rendered .u width padZero v =
            pad (BitVec.ofNat 32 (numeralText 10 v).length) width (fill padZero) ++ numeralText 10 v := rfl
        rw [count_padded, printed, text, List.count_append, List.count_cons_self] at signs
        change _ = 0 at signs
        omega
      · exact fun positive => absurd positive (Int.not_le.mpr negative)
    · have positive : 0 ≤ v.toInt := Int.not_lt.mp negative
      have same : numeralText 10 v = Conversion.digits .u v := if_neg negative
      exact ⟨fun _ => positive, fun _ => rendered_unsigned (by decide) rfl rfl same⟩
  | x => exact ⟨fun _ => trivial, fun _ => rendered_unsigned (by decide : (8 : Int) ≤ 16) rfl rfl rfl⟩
  | o => exact ⟨fun _ => trivial, fun _ => rendered_unsigned (by decide : (8 : Int) ≤ 8) rfl rfl rfl⟩

theorem char_plain (conv : Conversion) : isDigit conv.char = false := by
  cases conv <;> decide

/-- A format of one directive prints what its conversion renders. -/
theorem printf_number (memory : Mem) (buf : Nat → Byte) (fmt : Word) (args : Nat → Word) (conv : Conversion)
    (digits : ∀ d ∈ ds, isDigit d) (string : CString (view memory fmt) 0 (ch '%' :: (ds ++ [conv.char])))
    {turns : Nat} (enough : ds.length + 2 < turns) :
    ∃ reads, printf memory buf fmt args turns =
      some (rendered conv (widthFrom 0 ds) (ds.head? = some (ch '0')) (args 0), reads) := by
  have taking := takeWhile_digits digits (char_plain conv) []
  have flag : ((ds ++ [conv.char]).head? = some (ch '0')) ↔ ds.head? = some (ch '0') := by
    cases ds with
    | nil =>
      have other : conv.char ≠ ch '0' := by
        cases conv <;> decide
      simp [other]
    | cons d ds => rfl
  cases turns with
  | zero => omega
  | succ left =>
    have tail : CString (view memory fmt) (0 + 1 + ds.length) [conv.char] := string.2.2.suffix
    have converted : convert memory buf args
        (view memory fmt (0 + 1 + ((ds ++ [conv.char]).takeWhile isDigit).length))
        (widthFrom 0 ((ds ++ [conv.char]).takeWhile isDigit)) ((ds ++ [conv.char]).head? = some (ch '0')) 0 =
          some (rendered conv (widthFrom 0 ds) (ds.head? = some (ch '0')) (args 0), 1) := by
      rw [taking, tail.1]
      simp only [flag]
      exact convert_number memory buf args conv (widthFrom 0 ds) (ds.head? = some (ch '0')) 0
    have ends : Returns (printfLoop memory buf args left
        (0 + 1 + ((ds ++ [conv.char]).takeWhile isDigit).length + 1) 1) (view memory fmt) (fun _ => True) [] := by
      rw [taking]
      obtain ⟨more, rfl⟩ : ∃ more, left = more + 1 := Nat.exists_eq_succ_of_ne_zero (by omega)
      have zero : view memory fmt (0 + 1 + ds.length + 1) = 0 := tail.2.2
      refine Returns.then_read trivial ?_
      rw [zero]
      exact returns_pure []
    have room : (ds ++ [conv.char]).length < left := by
      rw [List.length_append, List.length_singleton]
      omega
    obtain ⟨reads, ended, _⟩ := printfLoop_directive string room (fun _ _ => trivial) converted ends
    rw [List.append_nil] at ended
    exact ⟨reads, ended⟩

/-- A format of one directive prints the padded numeral of its argument exactly when the conversion is
correct. -/
theorem printf_number_iff (memory : Mem) (buf : Nat → Byte) (fmt : Word) (args : Nat → Word) (conv : Conversion)
    (ds : List Byte) (digits : ∀ d ∈ ds, isDigit d)
    (string : CString (view memory fmt) 0 (ch '%' :: (ds ++ [conv.char]))) :
    ∃ out, (∀ turns, ds.length + 2 < turns → ∃ reads, printf memory buf fmt args turns = some (out, reads)) ∧
      (out = padded conv (widthFrom 0 ds).toInt (ds.head? = some (ch '0')) (args 0) ↔
        Correct conv (widthFrom 0 ds) (ds.head? = some (ch '0')) (args 0)) :=
  ⟨_, fun _ enough => printf_number memory buf fmt args conv digits string enough, rendered_iff conv _ _ _⟩

/-- The format %u in memory. -/
def unsignedFormat : Mem := fun a => if a = 0 then ch '%' else if a = 1 then ch 'u' else 0

theorem unsignedFormat_string : CString (view unsignedFormat 0) 0 (ch '%' :: ([] ++ [Conversion.u.char])) :=
  ⟨rfl, by decide, rfl, by decide, rfl⟩

theorem printf_number_iff_unsigned :
    ∃ out, (∀ turns, 2 < turns → ∃ reads, printf unsignedFormat (fun _ => 0) 0 (fun _ => 7) turns = some (out, reads)) ∧
      (out = padded .u 0 false 7 ↔ Correct .u 0 false 7) :=
  printf_number_iff unsignedFormat (fun _ => 0) 0 (fun _ => 7) .u [] (by decide) unsignedFormat_string

/-- %u shows the largest argument as -1. -/
theorem printf_number_wrong :
    ¬∀ (memory : Mem) (buf : Nat → Byte) (fmt : Word) (args : Nat → Word) (conv : Conversion) (ds : List Byte),
      (∀ d ∈ ds, isDigit d) → CString (view memory fmt) 0 (ch '%' :: (ds ++ [conv.char])) →
        ∀ turns, ds.length + 2 < turns → ∃ reads, printf memory buf fmt args turns =
          some (padded conv (widthFrom 0 ds).toInt (ds.head? = some (ch '0')) (args 0), reads) := by
  intro claim
  have none : ∀ d ∈ ([] : List Byte), isDigit d := fun _ member => absurd member List.not_mem_nil
  obtain ⟨reads, claimed⟩ := claim unsignedFormat (fun _ => 0) 0 (fun _ => 0xFFFFFFFF) .u [] none
    unsignedFormat_string 3 (by decide)
  obtain ⟨others, printed⟩ := printf_number unsignedFormat (fun _ => 0) 0 (fun _ => 0xFFFFFFFF) .u none
    unsignedFormat_string (show [].length + 2 < 3 by decide)
  have same := congrArg Prod.fst (Option.some.inj (printed.symm.trans claimed))
  have positive : 0 ≤ (0xFFFFFFFF : Word).toInt := (rendered_iff .u _ _ _).mp same
  exact absurd positive (by decide)

end Vaelen.Kernel.Printf
