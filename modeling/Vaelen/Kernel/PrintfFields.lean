import Vaelen.Base.Runs
import Vaelen.Kernel.Printf

/-!
The directives of printf and their arguments. A format is taken apart into characters and fields, and the loop
into its turns; a field is right when the loop comes behind it with one more argument taken and its rendering
printed. A minus is no flag of printf, so that such a field is printed as it stands and takes no argument.
-/

namespace Vaelen.Kernel.PrintfFields
open Vaelen.Base Reading Numbers Printf

/-! The formats. -/

inductive Flag where
  | none | minus | zero
  deriving DecidableEq, Repr

def Flag.text : Flag → List Byte
  | .none => []
  | .minus => [ch '-']
  | .zero => [ch '0']

inductive Kind where
  | number (conv : Conversion)
  | upper
  | string
  | char
  deriving DecidableEq, Repr

def Kind.letter : Kind → Byte
  | .number conv => conv.char
  | .upper => ch 'X'
  | .string => ch 's'
  | .char => ch 'c'

/-- One directive. A zero at the beginning of its width would be its flag. -/
structure Field where
  flag : Flag
  width : List Byte
  kind : Kind
  digits : ∀ d ∈ width, isDigit d
  first : flag = .none → width.head? ≠ some (ch '0')

def Field.text (field : Field) : List Byte := ch '%' :: (field.flag.text ++ field.width ++ [field.kind.letter])

/-- The int that the digits make. -/
def Field.size (field : Field) : Word := widthFrom 0 field.width

inductive Piece where
  | plain (c : Byte) (other : c ≠ ch '%')
  | directive (field : Field)

namespace Piece

def text : Piece → List Byte
  | .plain c _ => [c]
  | .directive field => field.text

/-- How many arguments it takes. -/
def takes : Piece → Nat
  | .plain _ _ => 0
  | .directive _ => 1

end Piece

def format (pieces : List Piece) : List Byte := pieces.flatMap Piece.text
def fields (pieces : List Piece) : Nat := (pieces.map Piece.takes).sum

/-! What is to be printed. -/

/-- Digits above nine are capital letters. -/
def upperHex (v : Word) : List Byte :=
  (Conversion.x.digits v).map fun c => if isDigit c then c else c - 0x20

/-- The argument before it is padded; a null pointer is shown as (null). -/
def Field.body (memory : Mem) (field : Field) (v : Word) : List Byte :=
  match field.kind with
  | .number conv => conv.sign v ++ conv.digits v
  | .upper => upperHex v
  | .string => if v = 0 then Shell.chars "(null)" else Shell.cstring (2 ^ 32) (view memory v) 0
  | .char => [v.setWidth 8]

def Field.rendering (memory : Mem) (field : Field) (v : Word) : List Byte :=
  let body := field.body memory v
  let missing := (field.size.toInt - body.length).toNat
  match field.flag, field.kind with
  | .minus, _ => body ++ List.replicate missing (ch ' ')
  | .zero, .number conv => padded conv field.size.toInt true v
  | .zero, .upper => List.replicate missing (ch '0') ++ body
  | _, _ => List.replicate missing (ch ' ') ++ body

def Piece.rendering (memory : Mem) (v : Word) : Piece → List Byte
  | .plain c _ => [c]
  | .directive field => field.rendering memory v

/-- Each field shows the argument that comes after those of the fields before it. -/
def expected (memory : Mem) (args : Nat → Word) : Nat → List Piece → List Byte
  | _, [] => []
  | taken, piece :: rest =>
      piece.rendering memory (args taken) ++ expected memory args (taken + piece.takes) rest

/-! The turns of the loop. -/

structure Spot where
  place : Nat
  taken : Nat
  deriving DecidableEq, Repr

/-- One turn of the loop over the format, with what it prints. -/
inductive Turn (memory : Mem) (buf : Nat → Byte) (fmt : Word) (args : Nat → Word) : Spot → List Byte → Spot → Prop
  | plain {i taken : Nat} (more : view memory fmt i ≠ 0) (other : view memory fmt i ≠ ch '%') :
      Turn memory buf fmt args ⟨i, taken⟩ [view memory fmt i] ⟨i + 1, taken⟩
  | directive {left i taken : Nat} {d : Directive} {reads : List Nat} {shown : List Byte × Nat}
      (percent : view memory fmt i = ch '%') (read : directive left (i + 1) (view memory fmt) = some (d, reads))
      (converted : convert memory buf args (view memory fmt d.place) d.width d.padZero taken = some shown) :
      Turn memory buf fmt args ⟨i, taken⟩ shown.1 ⟨d.place + 1, shown.2⟩

/-- Behind every part of the format the loop has printed what is expected and taken one argument for each field,
and printf prints the whole. -/
structure Replaced (memory : Mem) (buf : Nat → Byte) (fmt : Word) (args : Nat → Word) (pieces : List Piece) :
    Prop where
  each : ∀ before after, pieces = before ++ after → ∃ texts,
    Runs (Turn memory buf fmt args) ⟨0, 0⟩ texts ⟨(format before).length, fields before⟩ ∧
      texts.flatten = expected memory args 0 before
  whole : ∃ turns reads, printf memory buf fmt args turns = some (expected memory args 0 pieces, reads)

/-- Which fields without a minus are shown as they should: the numbers that are correct, hexadecimal ones without
letters where they should be capitals, strings with nothing to pad by a negative length, and characters that need no
padding. -/
def Right (memory : Mem) (field : Field) (v : Word) : Prop :=
  match field.kind with
  | .number conv => Correct conv field.size (field.flag = .zero) v
  | .upper => ∀ c ∈ Conversion.x.digits v, isDigit c
  | .string => (field.body memory v).length < 2 ^ 31 ∨ field.size.toInt + 2 ^ 32 ≤ (field.body memory v).length
  | .char => field.size.toInt ≤ 1

variable {memory : Mem} {buf : Nat → Byte} {fmt zero : Word} {args : Nat → Word} {i taken : Nat} {s t : Spot}
  {texts : List (List Byte)} {field : Field} {v : Word} {rest : List Byte}

/-! The loop has no choice. -/

/-- A string stands at every place. -/
theorem string_from (ends : memory zero = 0) (fmt : Word) (i : Nat) :
    ∃ rest, CString (view memory fmt) i rest := by
  obtain ⟨rest, string, -⟩ := view_string ends (fmt + BitVec.ofNat 32 i)
  refine ⟨rest, CString.of_get (fun zero => CString.nonzero string 0 zero rfl) ?_ ?_⟩
  · intro k c found
    have byte := CString.get string found
    rw [← byte]
    apply congrArg memory
    bv_omega
  · have last := string.ends
    rw [← last]
    apply congrArg memory
    bv_omega

theorem turn_unique (ends : memory zero = 0) (s : Spot) (text : List Byte) (t : Spot) (other : List Byte) (u : Spot)
    (first : Turn memory buf fmt args s text t) (second : Turn memory buf fmt args s other u) :
    text = other ∧ t = u := by
  cases first with
  | plain more other =>
    cases second with
    | plain => exact ⟨rfl, rfl⟩
    | directive percent => exact absurd percent other
  | directive percent read converted =>
    cases second with
    | plain more other => exact absurd percent other
    | directive percent again converts =>
      obtain ⟨rest, string⟩ := string_from ends fmt (_ + 1)
      obtain rfl := (directive_ended string read).trans (directive_ended string again).symm
      obtain rfl := Option.some.inj (converted.symm.trans converts)
      exact ⟨rfl, rfl⟩

theorem turn_climbs (ends : memory zero = 0) (s : Spot) (text : List Byte) (t : Spot)
    (turn : Turn memory buf fmt args s text t) : s.place < t.place := by
  cases turn with
  | plain => exact Nat.lt_succ_self _
  | directive percent read converted =>
    obtain ⟨rest, string⟩ := string_from ends fmt (_ + 1)
    rw [directive_ended string read]
    dsimp only
    omega

/-! What the turns show is what printf prints. -/

/-- The string behind a directive whose conversion is not the end of the format. -/
theorem behind_directive {f : Nat → Byte} (string : CString f i rest)
    (inside : (rest.takeWhile isDigit).length < rest.length) :
    ∃ after, CString f (i + (rest.takeWhile isDigit).length + 1) after ∧
      (rest.takeWhile isDigit).length + (after.length + 1) = rest.length := by
  have parts : rest.takeWhile isDigit ++ rest.dropWhile isDigit = rest := List.takeWhile_append_dropWhile
  have lengths := congrArg List.length parts
  rw [List.length_append] at lengths
  cases behind : rest.dropWhile isDigit with
  | nil =>
    rw [behind, List.length_nil] at lengths
    omega
  | cons c after =>
    rw [behind, List.length_cons] at lengths
    have tail : CString f i (rest.takeWhile isDigit ++ c :: after) := by
      rw [← behind, parts]
      exact string
    exact ⟨after, tail.suffix.2.2, lengths⟩

/-- From a place of the format up to its end. -/
theorem runs_print (run : Runs (Turn memory buf fmt args) s texts t) {rest : List Byte}
    (string : CString (view memory fmt) s.place rest) (ends : t.place = s.place + rest.length) {left : Nat}
    (room : rest.length < left) :
    Returns (printfLoop memory buf args left s.place s.taken) (view memory fmt) (fun _ => True) texts.flatten := by
  induction run generalizing rest left with
  | done s =>
    obtain ⟨more, rfl⟩ : ∃ more, left = more + 1 := Nat.exists_eq_succ_of_ne_zero (by omega)
    obtain rfl : rest = [] := List.eq_nil_of_length_eq_zero (by omega)
    have zero : view memory fmt s.place = 0 := string
    refine Returns.then_read trivial ?_
    rw [zero]
    exact returns_pure []
  | next turn tail ih =>
    obtain ⟨more, rfl⟩ : ∃ more, left = more + 1 := Nat.exists_eq_succ_of_ne_zero (by omega)
    have none := string.ends
    have along := Runs.climb (turn_climbs none) tail
    cases turn with
    | plain nonzero other =>
      cases rest with
      | nil => exact absurd string nonzero
      | cons c rest =>
        rw [List.length_cons] at ends room
        rw [List.flatten_cons, string.1]
        have later := ih string.2.2 (by dsimp only at ends ⊢; omega) (show rest.length < more by omega)
        exact printfLoop_plain string (string.1 ▸ other) trivial later
    | directive percent read converted =>
      cases rest with
      | nil => exact absurd (string.symm.trans percent) (by decide)
      | cons c rest =>
        obtain rfl : c = ch '%' := string.1.symm.trans percent
        obtain rfl := directive_ended string.2.2 read
        rw [List.length_cons] at ends room
        dsimp only at ends along converted ih
        obtain ⟨after, behind, length⟩ := behind_directive string.2.2 (by omega)
        have later := ih behind (by omega) (show after.length < more by omega)
        rw [List.flatten_cons]
        exact printfLoop_directive string (by omega) (fun _ _ => trivial) converted later

/-! One field. -/

/-- What the switch shows for a field. -/
def Field.printed (memory : Mem) (field : Field) (v : Word) : List Byte :=
  match field.kind with
  | .number conv => rendered conv field.size (field.flag = .zero) v
  | .upper => rendered .x field.size (field.flag = .zero) v
  | .string => pad (BitVec.ofNat 32 (field.body memory v).length) field.size (ch ' ') ++ field.body memory v
  | .char => [v.setWidth 8]

theorem shown_string (ends : memory zero = 0) (v width : Word) (padded : field.kind = .string) :
    printfString memory v width =
      some (pad (BitVec.ofNat 32 (field.body memory v).length) width (ch ' ') ++ field.body memory v) := by
  by_cases null : v = 0
  · have body : field.body memory v = Shell.chars "(null)" := by
      rw [Field.body, padded]
      exact if_pos null
    rw [body]
    refine printfString_eq ?_ (by decide) width
    rw [if_pos null]
    exact null_string
  · obtain ⟨text, string, room⟩ := view_string ends v
    have body : field.body memory v = text := by
      rw [Field.body, padded]
      exact (if_neg null).trans (Shell.cstring_eq string room)
    rw [body]
    refine printfString_eq ?_ room width
    rw [if_neg null]
    exact string

theorem convert_field (ends : memory zero = 0) (buf : Nat → Byte) (args : Nat → Word) (field : Field) (taken : Nat) :
    convert memory buf args field.kind.letter field.size (field.flag = .zero) taken =
      some (field.printed memory (args taken), taken + 1) := by
  unfold Field.printed
  cases kind : field.kind with
  | number conv => exact convert_number memory buf args conv _ _ taken
  | upper => exact convert_number memory buf args .x _ _ taken
  | string =>
    change (printfString memory (args taken) field.size).map _ = _
    rw [shown_string ends _ _ kind]
    rfl
  | char => rfl

theorem letter_plain (kind : Kind) : isDigit kind.letter = false ∧ kind.letter ≠ ch '%' := by
  cases kind with
  | number conv => cases conv <;> decide
  | upper => decide
  | string => decide
  | char => decide

theorem flag_digits {field : Field} (accepted : field.flag ≠ .minus) :
    ∀ d ∈ field.flag.text ++ field.width, isDigit d := by
  intro d member
  rcases List.mem_append.mp member with flag | digit
  · cases given : field.flag with
    | none =>
      rw [given] at flag
      exact absurd flag List.not_mem_nil
    | minus => exact absurd given accepted
    | zero =>
      rw [given] at flag
      rw [List.mem_singleton.mp flag]
      decide
  · exact field.digits d digit

/-- The flag adds nothing to the width. -/
theorem flag_size {field : Field} (accepted : field.flag ≠ .minus) :
    widthFrom 0 (field.flag.text ++ field.width) = field.size := by
  cases given : field.flag with
  | none => rfl
  | minus => exact absurd given accepted
  | zero => rfl

theorem flag_zero {field : Field} (accepted : field.flag ≠ .minus) (rest : List Byte) :
    (field.flag.text ++ field.width ++ field.kind.letter :: rest).head? = some (ch '0') ↔ field.flag = .zero := by
  cases given : field.flag with
  | none =>
    refine iff_of_false ?_ (by decide)
    have letter : field.kind.letter ≠ ch '0' := by
      intro same
      have plain := (letter_plain field.kind).1
      rw [same] at plain
      exact absurd plain (by decide)
    have first := field.first given
    cases digits : field.width with
    | nil =>
      intro same
      exact letter (Option.some.inj same)
    | cons d ds =>
      rw [digits] at first
      exact first
  | minus => exact absurd given accepted
  | zero => exact iff_of_true rfl rfl

/-- A field without a minus is one turn. -/
theorem turn_field (string : CString (view memory fmt) i (field.text ++ rest)) (accepted : field.flag ≠ .minus)
    (taken : Nat) : Turn memory buf fmt args ⟨i, taken⟩ (field.printed memory (args taken))
      ⟨i + field.text.length, taken + 1⟩ := by
  have none := string.ends
  have split : field.text ++ rest = ch '%' :: (field.flag.text ++ field.width ++ field.kind.letter :: rest) := by
    simp [Field.text]
  rw [split] at string
  obtain ⟨reads, read, -⟩ := directive_returns string.2.2 (Nat.lt_succ_self _)
  have taking := takeWhile_digits (flag_digits accepted) (letter_plain field.kind).1 rest
  rw [taking, flag_size accepted] at read
  simp only [flag_zero accepted] at read
  have place : CString (view memory fmt) (i + 1 + (field.flag.text ++ field.width).length)
      (field.kind.letter :: rest) := string.2.2.suffix
  have converted := convert_field none buf args field taken
  rw [← place.1] at converted
  have turn : Turn memory buf fmt args _ _ _ := Turn.directive string.1 read converted
  have length : i + field.text.length = i + 1 + (field.flag.text ++ field.width).length + 1 := by
    simp only [Field.text, List.length_cons, List.length_append, List.length_nil]
    omega
  rw [length]
  exact turn

/-- Plain characters are printed as they stand. -/
theorem runs_plain {cs : List Byte} (string : CString (view memory fmt) i (cs ++ rest))
    (plain : ∀ c ∈ cs, c ≠ ch '%') (taken : Nat) :
    Runs (Turn memory buf fmt args) ⟨i, taken⟩ (cs.map fun c => [c]) ⟨i + cs.length, taken⟩ := by
  induction cs generalizing i with
  | nil => exact Runs.done _
  | cons c cs ih =>
    have other := plain c List.mem_cons_self
    have place : i + (c :: cs).length = i + 1 + cs.length := by
      rw [List.length_cons]
      omega
    rw [place, List.map_cons]
    have turn : Turn memory buf fmt args ⟨i, taken⟩ [c] ⟨i + 1, taken⟩ := by
      have here : Turn memory buf fmt args ⟨i, taken⟩ _ _ := Turn.plain string.head_nonzero (string.1 ▸ other)
      rwa [string.1] at here
    exact Runs.next turn (ih string.2.2 fun d member => plain d (List.mem_cons_of_mem c member))

/-- A field with a minus is printed as it stands, and takes no argument. -/
theorem runs_minus (string : CString (view memory fmt) i (field.text ++ rest)) (minus : field.flag = .minus)
    (taken : Nat) : ∃ texts, Runs (Turn memory buf fmt args) ⟨i, taken⟩ texts ⟨i + field.text.length, taken⟩ := by
  have split : field.text ++ rest = ch '%' :: ch '-' :: (field.width ++ [field.kind.letter] ++ rest) := by
    simp [Field.text, minus, Flag.text]
  rw [split] at string
  obtain ⟨reads, read, -⟩ := directive_returns string.2.2 (Nat.lt_succ_self _)
  have converted : convert memory buf args (view memory fmt (i + 1)) 0 false taken = some ([ch '%', ch '-'], taken) := by
    rw [string.2.2.1]
    rfl
  have turn : Turn memory buf fmt args ⟨i, taken⟩ [ch '%', ch '-'] ⟨i + 1 + 1, taken⟩ :=
    Turn.directive string.1 read converted
  have plain : ∀ c ∈ field.width ++ [field.kind.letter], c ≠ ch '%' := by
    intro c member
    rcases List.mem_append.mp member with digit | letter
    · rintro rfl
      exact absurd (field.digits _ digit) (by decide)
    · rw [List.mem_singleton.mp letter]
      exact (letter_plain field.kind).2
  have length : i + field.text.length = i + 1 + 1 + (field.width ++ [field.kind.letter]).length := by
    simp only [Field.text, minus, Flag.text, List.length_cons, List.length_append, List.length_nil]
    omega
  rw [length]
  exact ⟨_, Runs.next turn (runs_plain string.2.2.2.2 plain taken)⟩

/-! When what is shown is right. -/

theorem body_length (ends : memory zero = 0) (v : Word) (string : field.kind = .string) :
    (field.body memory v).length < 2 ^ 32 := by
  rw [Field.body, string]
  by_cases null : v = 0
  · dsimp only
    rw [if_pos null]
    decide
  · obtain ⟨text, string, room⟩ := view_string ends v
    dsimp only
    rw [if_neg null, Shell.cstring_eq string room]
    exact room

/-- Without a minus a number is padded as in a format of its own. -/
theorem rendering_number {conv : Conversion} (number : field.kind = .number conv) (accepted : field.flag ≠ .minus) :
    field.rendering memory v = padded conv field.size.toInt (field.flag = .zero) v := by
  have body : field.body memory v = conv.sign v ++ conv.digits v := by
    rw [Field.body, number]
  unfold Field.rendering
  cases given : field.flag with
  | none =>
    rw [number, body]
    exact (List.append_assoc _ _ _).symm
  | minus => exact absurd given accepted
  | zero =>
    rw [number]
    rfl

theorem rendering_upper (upper : field.kind = .upper) (accepted : field.flag ≠ .minus) :
    field.rendering memory v =
      List.replicate (field.size.toInt - (upperHex v).length).toNat (fill (field.flag = .zero)) ++ upperHex v := by
  have body : field.body memory v = upperHex v := by
    rw [Field.body, upper]
  unfold Field.rendering
  cases given : field.flag with
  | none =>
    rw [upper, body]
    rfl
  | minus => exact absurd given accepted
  | zero =>
    rw [upper, body]
    rfl

theorem rendering_text (text : field.kind = .string ∨ field.kind = .char) (accepted : field.flag ≠ .minus) :
    field.rendering memory v =
      List.replicate (field.size.toInt - (field.body memory v).length).toNat (ch ' ') ++ field.body memory v := by
  unfold Field.rendering
  cases given : field.flag with
  | none => rfl
  | minus => exact absurd given accepted
  | zero =>
    rcases text with string | char
    · rw [string]
    · rw [char]

theorem upperHex_iff (v : Word) : Conversion.x.digits v = upperHex v ↔ ∀ c ∈ Conversion.x.digits v, isDigit c := by
  have same : (Conversion.x.digits v).map id = upperHex v ↔
      ∀ c ∈ Conversion.x.digits v, id c = if isDigit c then c else c - 0x20 := List.map_inj_left
  rw [List.map_id] at same
  rw [same]
  refine forall₂_congr fun c _ => ?_
  by_cases digit : isDigit c
  · rw [if_pos digit]
    exact iff_of_true rfl digit
  · rw [if_neg digit]
    refine iff_of_false (fun fixed : c = c - 0x20 => ?_) digit
    bv_omega

/-- Padding by one count or the other. -/
theorem replicate_append_iff {n m : Nat} {c : Byte} {text : List Byte} :
    List.replicate n c ++ text = List.replicate m c ++ text ↔ n = m := by
  rw [List.append_left_inj]
  exact List.replicate_left_inj

theorem printed_iff (ends : memory zero = 0) (accepted : field.flag ≠ .minus) (v : Word) :
    field.printed memory v = field.rendering memory v ↔ Right memory field v := by
  cases kind : field.kind with
  | number conv =>
    rw [rendering_number kind accepted, Field.printed, Right, kind]
    exact rendered_iff conv _ _ v
  | upper =>
    have shown := (rendered_iff .x field.size (field.flag = .zero) v).mpr trivial
    have length : (upperHex v).length = (Conversion.x.digits v).length := List.length_map _
    rw [rendering_upper kind accepted, Field.printed, Right, kind]
    dsimp only
    rw [shown, padded_unsigned rfl, length, List.append_right_inj]
    exact upperHex_iff v
  | string =>
    have top := body_length ends v kind
    rw [rendering_text (Or.inl kind) accepted, Field.printed, Right, kind]
    dsimp only
    rw [pad, replicate_append_iff, BitVec.toInt_eq_toNat_cond (BitVec.ofNat 32 _), BitVec.toNat_ofNat,
      Nat.mod_eq_of_lt top]
    have wide := BitVec.toInt_lt (x := field.size)
    split_ifs <;> omega
  | char =>
    have body : field.body memory v = [v.setWidth 8] := by
      rw [Field.body, kind]
    rw [rendering_text (Or.inr kind) accepted, Field.printed, Right, kind, body]
    dsimp only
    have none : [v.setWidth 8] = List.replicate 0 (ch ' ') ++ [v.setWidth 8] := rfl
    conv_lhs => lhs; rw [none]
    rw [replicate_append_iff, List.length_singleton]
    omega

/-! All of them. -/

theorem format_append (before after : List Piece) : format (before ++ after) = format before ++ format after :=
  List.flatMap_append

theorem expected_append (memory : Mem) (args : Nat → Word) (taken : Nat) (before after : List Piece) :
    expected memory args taken (before ++ after) =
      expected memory args taken before ++ expected memory args (taken + fields before) after := by
  induction before generalizing taken with
  | nil => rfl
  | cons piece before ih =>
    have count : taken + piece.takes + fields before = taken + fields (piece :: before) := by
      simp [fields, Nat.add_assoc]
    rw [List.cons_append, expected, expected, ih, count, List.append_assoc]

/-- The run over pieces whose fields are all right. -/
theorem runs_pieces {pieces : List Piece} (string : CString (view memory fmt) i (format pieces ++ rest))
    (right : ∀ before field after, pieces = before ++ .directive field :: after →
      field.flag ≠ .minus ∧ Right memory field (args (taken + fields before))) :
    ∃ texts, Runs (Turn memory buf fmt args) ⟨i, taken⟩ texts ⟨i + (format pieces).length, taken + fields pieces⟩ ∧
      texts.flatten = expected memory args taken pieces := by
  induction pieces generalizing i taken with
  | nil => exact ⟨[], Runs.done _, rfl⟩
  | cons piece pieces ih =>
    have none := string.ends
    have text : format (piece :: pieces) = piece.text ++ format pieces := rfl
    have place : i + (format (piece :: pieces)).length = i + piece.text.length + (format pieces).length := by
      rw [text, List.length_append, Nat.add_assoc]
    have count : taken + fields (piece :: pieces) = taken + piece.takes + fields pieces := by
      simp [fields, Nat.add_assoc]
    rw [text, List.append_assoc] at string
    have turn : Turn memory buf fmt args ⟨i, taken⟩ (piece.rendering memory (args taken))
        ⟨i + piece.text.length, taken + piece.takes⟩ := by
      cases piece with
      | plain c other =>
        have here : Turn memory buf fmt args ⟨i, taken⟩ _ _ := Turn.plain string.head_nonzero (string.1 ▸ other)
        rwa [string.1] at here
      | directive field =>
        obtain ⟨accepted, correct⟩ : field.flag ≠ .minus ∧ Right memory field (args taken) :=
          right [] field pieces rfl
        have here : Turn memory buf fmt args ⟨i, taken⟩ _ _ := turn_field string accepted taken
        rwa [(printed_iff none accepted _).mpr correct] at here
    have later : ∀ before field after, pieces = before ++ .directive field :: after →
        field.flag ≠ .minus ∧ Right memory field (args (taken + piece.takes + fields before)) := by
      rintro before field after rfl
      have count : taken + piece.takes + fields before = taken + fields (piece :: before) := by
        simp [fields, Nat.add_assoc]
      rw [count]
      exact right (piece :: before) field after rfl
    obtain ⟨texts, run, shown⟩ := ih string.suffix later
    rw [place, count]
    refine ⟨_, Runs.next turn run, ?_⟩
    rw [List.flatten_cons, shown, expected]

/-- The loop comes behind a field with its rendering printed and its argument taken exactly when the field is
right. -/
theorem field_right (ends : memory zero = 0) (string : CString (view memory fmt) i (field.text ++ rest))
    (run : Runs (Turn memory buf fmt args) ⟨i, taken⟩ texts ⟨i + field.text.length, taken + 1⟩)
    (shown : texts.flatten = field.rendering memory (args taken)) :
    field.flag ≠ .minus ∧ Right memory field (args taken) := by
  have accepted : field.flag ≠ .minus := by
    intro minus
    obtain ⟨others, along⟩ : ∃ texts,
        Runs (Turn memory buf fmt args) ⟨i, taken⟩ texts ⟨i + field.text.length, taken⟩ :=
      runs_minus string minus taken
    obtain ⟨-, same⟩ := Runs.same (turn_climbs ends) (turn_unique ends) run along rfl
    exact absurd (congrArg Spot.taken same) (Nat.succ_ne_self taken)
  have turn : Turn memory buf fmt args ⟨i, taken⟩ _ _ := turn_field string accepted taken
  obtain ⟨rfl, -⟩ := Runs.same (turn_climbs ends) (turn_unique ends) run (Runs.next turn (Runs.done _)) rfl
  rw [List.flatten_singleton] at shown
  exact ⟨accepted, (printed_iff ends accepted _).mp shown⟩

variable {pieces : List Piece}

theorem Replaced.right (replaced : Replaced memory buf fmt args pieces)
    (string : CString (view memory fmt) 0 (format pieces)) (before : List Piece) (field : Field) (after : List Piece)
    (split : pieces = before ++ .directive field :: after) :
    field.flag ≠ .minus ∧ Right memory field (args (fields before)) := by
  have none := string.ends
  subst split
  obtain ⟨texts, run, shown⟩ := replaced.each before (.directive field :: after) rfl
  obtain ⟨more, longer, also⟩ := replaced.each (before ++ [.directive field]) after (by simp)
  have text : format (before ++ [.directive field]) = format before ++ field.text := by
    simp [format, Piece.text]
  have count : fields (before ++ [.directive field]) = fields before + 1 := by
    simp [fields, Piece.takes]
  rw [text, List.length_append, count] at longer
  obtain ⟨rest, rfl, last⟩ := Runs.part (turn_climbs none) (turn_unique none) run longer (Nat.le_add_right _ _)
  have rendered : rest.flatten = field.rendering memory (args (fields before)) := by
    rw [List.flatten_append, shown, expected_append, Nat.zero_add] at also
    have tail := List.append_cancel_left also
    simpa [expected, Piece.rendering] using tail
  have whole : format (before ++ .directive field :: after) = format before ++ (field.text ++ format after) := by
    simp [format, Piece.text]
  rw [whole] at string
  have here : CString (view memory fmt) (format before).length (field.text ++ format after) := by
    have suffix := string.suffix
    rwa [Nat.zero_add] at suffix
  exact field_right none here last rendered

/-- Each field is replaced by the rendering of its own argument exactly when none has a minus and all are right. -/
theorem printf_replaced_iff (memory : Mem) (buf : Nat → Byte) (fmt : Word) (args : Nat → Word) (pieces : List Piece)
    (string : CString (view memory fmt) 0 (format pieces)) :
    Replaced memory buf fmt args pieces ↔
      ∀ before field after, pieces = before ++ .directive field :: after →
        field.flag ≠ .minus ∧ Right memory field (args (fields before)) := by
  constructor
  · exact fun replaced => replaced.right string
  · intro right
    have run : ∀ before after rest, pieces = before ++ after →
        CString (view memory fmt) 0 (format before ++ rest) → ∃ texts,
          Runs (Turn memory buf fmt args) ⟨0, 0⟩ texts ⟨(format before).length, fields before⟩ ∧
            texts.flatten = expected memory args 0 before := by
      rintro before after rest rfl string
      have sound : ∀ first field later, before = first ++ .directive field :: later →
          field.flag ≠ .minus ∧ Right memory field (args (0 + fields first)) := by
        rintro first field later rfl
        rw [Nat.zero_add]
        exact right first field (later ++ after) (by simp)
      have run : ∃ texts, Runs (Turn memory buf fmt args) ⟨0, 0⟩ texts
          ⟨0 + (format before).length, 0 + fields before⟩ ∧ texts.flatten = expected memory args 0 before :=
        runs_pieces string sound
      rwa [Nat.zero_add, Nat.zero_add] at run
    constructor
    · intro before after split
      refine run before after (format after) split ?_
      rwa [← format_append, ← split]
    · obtain ⟨texts, run, shown⟩ := run pieces [] [] (List.append_nil pieces).symm (by rwa [List.append_nil])
      obtain ⟨reads, ended, -⟩ := runs_print run string (Nat.zero_add _).symm (Nat.lt_succ_self _)
      exact ⟨_, reads, shown ▸ ended⟩

/-- The directive %u. -/
def unsignedField : Field :=
  { flag := .none, width := [], kind := .number .u, digits := by decide, first := by decide }

/-- The directive %5d. -/
def signedField : Field :=
  { flag := .none, width := [ch '5'], kind := .number .d, digits := by decide, first := by decide }

/-- The format "n=%u %5d". -/
def pairPieces : List Piece :=
  [.plain (ch 'n') (by decide), .plain (ch '=') (by decide), .directive unsignedField, .plain (ch ' ') (by decide),
    .directive signedField]

def pairFormat : Mem := fun a => (format pairPieces).getD a.toNat 0

theorem printf_replaced_pair :
    Replaced pairFormat (fun _ => 0) 0 (fun k => if k = 0 then 7 else 42) pairPieces := by
  have string : CString (view pairFormat 0) 0 (format pairPieces) :=
    ⟨rfl, by decide, rfl, by decide, rfl, by decide, rfl, by decide, rfl, by decide, rfl, by decide, rfl, by decide,
      rfl, by decide, rfl⟩
  apply (printf_replaced_iff _ _ _ _ _ string).mpr
  intro before field after split
  rcases before with _ | ⟨_, _ | ⟨_, _ | ⟨_, _ | ⟨_, _ | ⟨_, more⟩⟩⟩⟩⟩ <;>
    simp only [pairPieces, List.cons_append, List.nil_append, List.cons.injEq, reduceCtorEq, false_and,
      and_false, Piece.directive.injEq] at split
  · obtain ⟨rfl, rfl, rfl, rfl⟩ := split
    exact ⟨by decide, show (0 : Int) ≤ (7 : Word).toInt by decide⟩
  · obtain ⟨rfl, rfl, rfl, rfl, rfl, rfl⟩ := split
    exact ⟨by decide, Or.inl (show (0 : Int) ≤ (42 : Word).toInt by decide)⟩
  · simp at split

/-- The directive %-12s, as cmd_help has it. -/
def commandField : Field :=
  { flag := .minus, width := [ch '1', ch '2'], kind := .string, digits := by decide, first := by decide }

def commandFormat : Mem := fun a => commandField.text.getD a.toNat 0

/-- It is not replaced. -/
theorem printf_not_replaced :
    ¬∀ (memory : Mem) (buf : Nat → Byte) (fmt : Word) (args : Nat → Word) (pieces : List Piece),
      CString (view memory fmt) 0 (format pieces) → Replaced memory buf fmt args pieces := by
  intro claim
  have string : CString (view commandFormat 0) 0 (format [.directive commandField]) :=
    ⟨rfl, by decide, rfl, by decide, rfl, by decide, rfl, by decide, rfl, by decide, rfl⟩
  have right := (claim _ (fun _ => 0) 0 (fun _ => 4) _ string).right string [] commandField [] rfl
  exact right.1 rfl

end Vaelen.Kernel.PrintfFields
