import Vaelen.Base.Ring
import Vaelen.Kernel.Platform

/-!
The keyboard driver of keyboard.c. The interrupt handler puts characters into a ring of 256
slots, and keyboard_getchar takes them out, one C statement at a time, with the handler
running between any two of them.
-/

namespace Vaelen.Kernel.Keyboard
open Vaelen.Base

/-- The static variables of keyboard.c. -/
structure Driver where
  kbBuffer : Int → Byte
  kbBufHead : Int
  kbBufTail : Int
  kbBufCount : Int
  shiftPressed : Bool
  capsLock : Bool

def ascii (chars : List Char) : List Byte := chars.map fun c => BitVec.ofNat 8 c.toNat

def kbUs : List Byte :=
  [0, 0] ++ ascii ['1', '2', '3', '4', '5', '6', '7', '8', '9', '0', '-', '='] ++ [0x08] ++
  [0x09] ++ ascii ['q', 'w', 'e', 'r', 't', 'y', 'u', 'i', 'o', 'p', '[', ']'] ++ [0x0A] ++
  [0] ++ ascii ['a', 's', 'd', 'f', 'g', 'h', 'j', 'k', 'l', ';'] ++ [0x27, 0x60] ++
  [0, 0x5C] ++ ascii ['z', 'x', 'c', 'v', 'b', 'n', 'm', ',', '.', '/'] ++ [0] ++
  ascii ['*'] ++ [0] ++ ascii [' '] ++ [0]

def kbUsShift : List Byte :=
  [0, 0] ++ ascii ['!', '@', '#', '$', '%', '^', '&', '*', '(', ')', '_', '+'] ++ [0x08] ++
  [0x09] ++ ascii ['Q', 'W', 'E', 'R', 'T', 'Y', 'U', 'I', 'O', 'P'] ++ [0x7B, 0x7D] ++ [0x0A] ++
  [0] ++ ascii ['A', 'S', 'D', 'F', 'G', 'H', 'J', 'K', 'L', ':'] ++ [0x22, 0x7E] ++
  [0, 0x7C] ++ ascii ['Z', 'X', 'C', 'V', 'B', 'N', 'M', '<', '>', '?'] ++ [0] ++
  ascii ['*'] ++ [0] ++ ascii [' '] ++ [0]

/-- The choice of `c` in keyboard_handler. -/
def translate (k : Driver) (scancode : Byte) : Byte :=
  if k.shiftPressed ^^ k.capsLock then
    if inside : scancode.toNat < kbUsShift.length then kbUsShift.get ⟨scancode.toNat, inside⟩ else 0
  else
    if inside : scancode.toNat < kbUs.length then kbUs.get ⟨scancode.toNat, inside⟩ else 0

/-- `scancode` is what inb(0x60) reads. -/
def keyboardHandler (scancode : Byte) (k : Driver) : Driver :=
  if scancode = 0x2A ∨ scancode = 0x36 then { k with shiftPressed := true }
  else if scancode = 0xAA ∨ scancode = 0xB6 then { k with shiftPressed := false }
  else if scancode = 0x3A then { k with capsLock := !k.capsLock }
  else if scancode &&& 0x80 ≠ 0 then k
  else
    let c := translate k scancode
    if c ≠ 0 ∧ k.kbBufCount < 256 then
      { k with
        kbBuffer := Function.update k.kbBuffer k.kbBufTail c
        kbBufTail := (k.kbBufTail + 1).tmod 256
        kbBufCount := k.kbBufCount + 1 }
    else k

/-- Where the reader is in keyboard_getchar, with its local variable `c`. -/
inductive Reader where
  | outside
  | testing
  | halting
  | loading
  | advancing (c : Byte)
  | decrementing (c : Byte)
  | returning (c : Byte)
  deriving DecidableEq, Repr

/-- One statement of keyboard_getchar, and the character when it returns one. -/
def keyboardGetchar (k : Driver) : Reader → Driver × Reader × Option Byte
  | .outside => (k, .testing, none)
  | .testing => (k, if k.kbBufCount = 0 then .halting else .loading, none)
  | .halting => (k, .testing, none)
  | .loading => (k, .advancing (k.kbBuffer k.kbBufHead), none)
  | .advancing c => ({ k with kbBufHead := (k.kbBufHead + 1).tmod 256 }, .decrementing c, none)
  | .decrementing c => ({ k with kbBufCount := k.kbBufCount - 1 }, .returning c, none)
  | .returning c => (k, .outside, some c)

/-! The driver with one reader, and a record of what was stored and returned. -/

structure System where
  keyboard : Driver
  reader : Reader
  stored : List Byte
  returned : List Byte

inductive Event where
  | interrupt (scancode : Byte)
  | statement

/-- The handler has stored a character when it counted one more. -/
def interrupt (scancode : Byte) (s : System) : System :=
  let keyboard := keyboardHandler scancode s.keyboard
  { s with
    keyboard := keyboard
    stored :=
      if keyboard.kbBufCount = s.keyboard.kbBufCount then s.stored
      else s.stored ++ [keyboard.kbBuffer s.keyboard.kbBufTail] }

def statement (s : System) : System :=
  let (keyboard, reader, c) := keyboardGetchar s.keyboard s.reader
  { s with
    keyboard := keyboard
    reader := reader
    returned := match c with
      | some c => s.returned ++ [c]
      | none => s.returned }

def step (s : System) : Event → System
  | .interrupt scancode => interrupt scancode s
  | .statement => statement s

/-- The statics are zero at boot. -/
def start : System where
  keyboard :=
    { kbBuffer := fun _ => 0
      kbBufHead := 0
      kbBufTail := 0
      kbBufCount := 0
      shiftPressed := false
      capsLock := false }
  reader := .outside
  stored := []
  returned := []

/-- The character that a scancode brings to the queue, if any. -/
def arrival (scancode : Byte) (k : Driver) : Option Byte :=
  if scancode = 0x2A ∨ scancode = 0x36 ∨ scancode = 0xAA ∨ scancode = 0xB6 ∨ scancode = 0x3A ∨
      scancode &&& 0x80 ≠ 0 ∨ translate k scancode = 0 then none
  else some (translate k scancode)

namespace Reader

/-- The character that has been taken out of the ring and not been returned yet. -/
def held : Reader → List Byte
  | .advancing c | .decrementing c | .returning c => [c]
  | _ => []

/-- Whether kb_buf_head is past that character already. -/
def advanced : Reader → Nat
  | .decrementing _ | .returning _ => 1
  | _ => 0

/-- Whether kb_buf_count no longer counts it. -/
def discounted : Reader → Nat
  | .returning _ => 1
  | _ => 0

end Reader

def fetched (s : System) : List Byte := s.returned ++ s.reader.held

/-- The relation of head, tail and count up to the reader's position. -/
structure Queued (s : System) : Prop where
  window : Window 256 (fun k => s.keyboard.kbBuffer k) s.stored (fetched s).length
  inOrder : fetched s <+: s.stored
  head : s.keyboard.kbBufHead = ((s.returned.length + s.reader.advanced) % 256 : Nat)
  tail : s.keyboard.kbBufTail = (s.stored.length % 256 : Nat)
  count : s.keyboard.kbBufCount + (s.returned.length + s.reader.discounted : Nat) = s.stored.length
  full : s.keyboard.kbBufCount ≤ 256
  ready : s.reader = .loading → s.returned.length < s.stored.length

/-- What holds of the queue for its readers. -/
structure Fifo (s : System) : Prop where
  inOrder : s.returned <+: s.stored
  /-- The characters that are still to be fetched are in the ring, each in its slot. -/
  kept : ∀ k, (fetched s).length ≤ k → (inside : k < s.stored.length) →
    s.keyboard.kbBuffer (k % 256 : Nat) = s.stored.get ⟨k, inside⟩
  dropped : ∀ scancode c, arrival scancode s.keyboard = some c →
    (interrupt scancode s).stored = s.stored ++ [c] ∨
      (interrupt scancode s).stored = s.stored ∧ s.keyboard.kbBufCount = 256
  head : 0 ≤ s.keyboard.kbBufHead ∧ s.keyboard.kbBufHead < 256
  tail : 0 ≤ s.keyboard.kbBufTail ∧ s.keyboard.kbBufTail < 256
  count : 0 ≤ s.keyboard.kbBufCount ∧ s.keyboard.kbBufCount ≤ 256

/-! The handler. -/

/-- The handler either queues the character that has arrived or leaves the ring alone. -/
theorem keyboardHandler_cases (scancode : Byte) (k : Driver) :
    (∃ c, arrival scancode k = some c ∧ k.kbBufCount < 256 ∧ keyboardHandler scancode k =
      { k with
        kbBuffer := Function.update k.kbBuffer k.kbBufTail c
        kbBufTail := (k.kbBufTail + 1).tmod 256
        kbBufCount := k.kbBufCount + 1 }) ∨
    ((arrival scancode k = none ∨ ¬k.kbBufCount < 256) ∧ ∃ shift caps,
      keyboardHandler scancode k = { k with shiftPressed := shift, capsLock := caps }) := by
  unfold keyboardHandler
  by_cases quiet : scancode = 0x2A ∨ scancode = 0x36 ∨ scancode = 0xAA ∨ scancode = 0xB6 ∨
      scancode = 0x3A ∨ scancode &&& 0x80 ≠ 0 ∨ translate k scancode = 0
  · right
    refine ⟨Or.inl (if_pos quiet), ?_⟩
    split
    · exact ⟨true, k.capsLock, rfl⟩
    · split
      · exact ⟨false, k.capsLock, rfl⟩
      · split
        · exact ⟨k.shiftPressed, !k.capsLock, rfl⟩
        · split
          · exact ⟨k.shiftPressed, k.capsLock, rfl⟩
          · have silent : translate k scancode = 0 := by tauto
            rw [if_neg fun both => both.1 silent]
            exact ⟨k.shiftPressed, k.capsLock, rfl⟩
  · have arrived : arrival scancode k = some (translate k scancode) := if_neg quiet
    simp only [not_or, not_not] at quiet
    obtain ⟨first, second, third, fourth, fifth, up, printable⟩ := quiet
    rw [if_neg (by tauto), if_neg (by tauto), if_neg fifth, if_neg (fun down => down up)]
    by_cases room : k.kbBufCount < 256
    · left
      rw [if_pos ⟨printable, room⟩]
      exact ⟨_, arrived, room, rfl⟩
    · right
      rw [if_neg fun both => room both.2]
      exact ⟨Or.inr room, k.shiftPressed, k.capsLock, rfl⟩

/-- What an interrupt does to the system: it queues the arrival, or only the flags change. -/
theorem interrupt_cases (scancode : Byte) (s : System) :
    (∃ c, arrival scancode s.keyboard = some c ∧ s.keyboard.kbBufCount < 256 ∧
      interrupt scancode s =
        { s with
          keyboard := { s.keyboard with
            kbBuffer := Function.update s.keyboard.kbBuffer s.keyboard.kbBufTail c
            kbBufTail := (s.keyboard.kbBufTail + 1).tmod 256
            kbBufCount := s.keyboard.kbBufCount + 1 }
          stored := s.stored ++ [c] }) ∨
    ((arrival scancode s.keyboard = none ∨ ¬s.keyboard.kbBufCount < 256) ∧ ∃ shift caps,
      interrupt scancode s =
        { s with keyboard := { s.keyboard with shiftPressed := shift, capsLock := caps } }) := by
  rcases keyboardHandler_cases scancode s.keyboard with
    ⟨c, arrived, room, same⟩ | ⟨none, shift, caps, same⟩
  · refine Or.inl ⟨c, arrived, room, ?_⟩
    have counted : s.keyboard.kbBufCount + 1 ≠ s.keyboard.kbBufCount := by omega
    rw [interrupt, same]
    simp only [if_neg counted, Function.update_self]
  · refine Or.inr ⟨none, shift, caps, ?_⟩
    rw [interrupt, same]
    simp only [if_true]

/-! One event. -/

variable {s : System}

theorem tmod_succ (n : Nat) : (((n % 256 : Nat) : Int) + 1).tmod 256 = ((n + 1) % 256 : Nat) := by
  have small : (((n % 256 : Nat) : Int) + 1).tmod 256 = ((n % 256 : Nat) + 1 : Int) % 256 :=
    Int.tmod_eq_emod_of_nonneg (by omega)
  rw [small]
  omega

theorem fetched_length (s : System) :
    (fetched s).length = s.returned.length + s.reader.held.length := List.length_append

theorem discounted_le (reader : Reader) : reader.discounted ≤ reader.held.length := by
  cases reader <;> simp [Reader.discounted, Reader.held]

theorem Queued.interrupt (queued : Queued s) (scancode : Byte) :
    Queued (interrupt scancode s) := by
  rcases interrupt_cases scancode s with ⟨c, _, room, same⟩ | ⟨_, shift, caps, same⟩
  · rw [same]
    have count := queued.count
    have short := discounted_le s.reader
    have length := fetched_length s
    have free : s.stored.length < (fetched s).length + 256 := by omega
    have put := queued.window.put free c
    apply Queued.mk
    · have slots : (fun k : Nat => Function.update s.keyboard.kbBuffer s.keyboard.kbBufTail c k) =
          Function.update (fun k : Nat => s.keyboard.kbBuffer k) (s.stored.length % 256) c := by
        funext k
        rw [queued.tail]
        by_cases here : k = s.stored.length % 256
        · rw [here, Function.update_self, Function.update_self]
        · rw [Function.update_of_ne here, Function.update_of_ne (by exact_mod_cast here)]
      change Window 256 (fun k : Nat => Function.update s.keyboard.kbBuffer _ c k) _ _
      rw [slots]
      exact put
    · exact queued.inOrder.trans (List.prefix_append _ _)
    · exact queued.head
    · change (s.keyboard.kbBufTail + 1).tmod 256 = _
      rw [queued.tail, tmod_succ, List.length_append, List.length_singleton]
    · change s.keyboard.kbBufCount + 1 + (s.returned.length + s.reader.discounted : Nat) = _
      rw [List.length_append, List.length_singleton]
      omega
    · change s.keyboard.kbBufCount + 1 ≤ 256
      omega
    · intro loading
      have waiting := queued.ready loading
      change s.returned.length < (s.stored ++ [c]).length
      rw [List.length_append]
      omega
  · rw [same]
    exact ⟨queued.window, queued.inOrder, queued.head, queued.tail, queued.count, queued.full, queued.ready⟩

theorem Queued.statement (queued : Queued s) : Queued (statement s) := by
  obtain ⟨keyboard, reader, stored, returned⟩ := s
  obtain ⟨window, inOrder, head, tail, count, full, ready⟩ := queued
  cases reader with
  | outside => exact ⟨window, inOrder, head, tail, count, full, Reader.noConfusion⟩
  | testing =>
    by_cases empty : keyboard.kbBufCount = 0
    · have same : statement ⟨keyboard, .testing, stored, returned⟩ =
          ⟨keyboard, .halting, stored, returned⟩ := by
        simp only [Keyboard.statement, keyboardGetchar, if_pos empty]
      rw [same]
      exact ⟨window, inOrder, head, tail, count, full, Reader.noConfusion⟩
    · have same : statement ⟨keyboard, .testing, stored, returned⟩ =
          ⟨keyboard, .loading, stored, returned⟩ := by
        simp only [Keyboard.statement, keyboardGetchar, if_neg empty]
      rw [same]
      refine ⟨window, inOrder, head, tail, count, full, fun _ => ?_⟩
      have bound := inOrder.length_le
      simp only [fetched, Reader.held, Reader.discounted, List.append_nil] at bound count ⊢
      omega
  | halting => exact ⟨window, inOrder, head, tail, count, full, Reader.noConfusion⟩
  | loading =>
    have waiting : returned.length < stored.length := ready rfl
    have taken : (fetched ⟨keyboard, .loading, stored, returned⟩).length = returned.length := by
      simp [fetched, Reader.held]
    rw [taken] at window
    have next : keyboard.kbBuffer keyboard.kbBufHead = stored.get ⟨returned.length, waiting⟩ := by
      rw [head]
      exact window.next waiting
    apply Queued.mk
    · change Window 256 _ stored (returned ++ [_]).length
      rw [List.length_append]
      exact window.take waiting
    · change returned ++ [keyboard.kbBuffer keyboard.kbBufHead] <+: stored
      rw [next]
      apply prefix_snoc
      simpa [fetched, Reader.held] using inOrder
    · exact head
    · exact tail
    · exact count
    · exact full
    · exact Reader.noConfusion
  | advancing c =>
    refine ⟨window, inOrder, ?_, tail, count, full, Reader.noConfusion⟩
    change (keyboard.kbBufHead + 1).tmod 256 = _
    rw [head]
    exact tmod_succ _
  | decrementing c =>
    refine ⟨window, inOrder, head, tail, ?_, ?_, Reader.noConfusion⟩
    · simp only [Keyboard.statement, keyboardGetchar, Reader.discounted] at count ⊢
      omega
    · change keyboard.kbBufCount - 1 ≤ 256
      have bound : keyboard.kbBufCount ≤ 256 := full
      omega
  | returning c =>
    have same : fetched (Keyboard.statement ⟨keyboard, .returning c, stored, returned⟩) =
        fetched ⟨keyboard, .returning c, stored, returned⟩ := by
      simp [fetched, Keyboard.statement, keyboardGetchar, Reader.held]
    apply Queued.mk
    · rw [same]
      exact window
    · rw [same]
      exact inOrder
    · simpa [Keyboard.statement, keyboardGetchar, Reader.advanced] using head
    · exact tail
    · simpa [Keyboard.statement, keyboardGetchar, Reader.discounted] using count
    · exact full
    · exact Reader.noConfusion

theorem queued_start : Queued start :=
  ⟨Window.empty 256 _, List.prefix_rfl, rfl, rfl, rfl, by decide, Reader.noConfusion⟩

theorem run_queued (events : List Event) (queued : Queued s) : Queued (events.foldl step s) := by
  induction events generalizing s with
  | nil => exact queued
  | cons event rest ih =>
    apply ih
    cases event with
    | interrupt scancode => exact queued.interrupt scancode
    | statement => exact queued.statement

theorem Queued.fifo (queued : Queued s) : Fifo s := by
  have order : s.returned <+: s.stored := (List.prefix_append _ _).trans queued.inOrder
  have count := queued.count
  have short := discounted_le s.reader
  have length := fetched_length s
  have low := queued.window.taken_le
  apply Fifo.mk order
  · exact fun k later inside => queued.window.slot k later inside
  · intro scancode c arrived
    rcases interrupt_cases scancode s with ⟨d, also, _, same⟩ | ⟨full, shift, caps, same⟩
    · left
      rw [same, Option.some.inj (arrived.symm.trans also)]
    · right
      have bound := queued.full
      rcases full with none | full
      · exact absurd (none.symm.trans arrived) (Option.some_ne_none c).symm
      · rw [same]
        exact ⟨rfl, by omega⟩
  · rw [queued.head]
    omega
  · rw [queued.tail]
    omega
  · exact ⟨by omega, queued.full⟩

/-- Whatever arrives, and wherever the handler interrupts the reader, the characters returned
are a prefix of those stored, and none is lost but to a full queue. -/
theorem run_fifo (events : List Event) : Fifo (events.foldl step start) :=
  (run_queued events queued_start).fifo

end Vaelen.Kernel.Keyboard
