/-!
# CompactDisc.Text.Utf8

**Reading bytes as UTF-8 without ever failing.** Bytes that cannot be part of a character become
U+FFFD, one for each longest run that could still have begun a character.

Design points:

* The reader is a machine over single bytes. Between characters it is in state `none`; inside one it
  holds a `Partial`: how many bytes are owed and the range the next may be in.
* A byte outside that range ends the run with one U+FFFD and is then read as the start of the next
  character, so no byte is skipped.
-/

namespace CompactDisc.Text.Utf8

/-- What stands for bytes that are no character. -/
def replacement : Char := '\uFFFD'

/-- A character whose first bytes have been read. -/
structure Partial where
  /-- Bytes still owed; at least one. -/
  owed : Nat
  /-- The least and the greatest byte the next one may be. -/
  low : UInt8
  high : UInt8
  /-- The bits read so far. -/
  bits : Nat
  deriving DecidableEq, Repr

/-- Reads a byte between two characters. -/
def start (b : UInt8) : List Char × Option Partial :=
  if b ≤ 0x7F then ([Char.ofNat b.toNat], none)
  else if 0xC2 ≤ b ∧ b ≤ 0xDF then ([], some ⟨1, 0x80, 0xBF, b.toNat - 0xC0⟩)
  else if b = 0xE0 then ([], some ⟨2, 0xA0, 0xBF, 0⟩)
  else if b = 0xED then ([], some ⟨2, 0x80, 0x9F, 0xD⟩)
  else if 0xE1 ≤ b ∧ b ≤ 0xEF then ([], some ⟨2, 0x80, 0xBF, b.toNat - 0xE0⟩)
  else if b = 0xF0 then ([], some ⟨3, 0x90, 0xBF, 0⟩)
  else if 0xF1 ≤ b ∧ b ≤ 0xF3 then ([], some ⟨3, 0x80, 0xBF, b.toNat - 0xF0⟩)
  else if b = 0xF4 then ([], some ⟨3, 0x80, 0x8F, 4⟩)
  else ([replacement], none)

/-- Reads one byte: the characters it completes and the state after it. -/
def step : Option Partial → UInt8 → List Char × Option Partial
  | none, b => start b
  | some p, b =>
    if p.low ≤ b ∧ b ≤ p.high then
      let bits := p.bits * 64 + (b.toNat - 0x80)
      if p.owed ≤ 1 then ([Char.ofNat bits], none)
      else ([], some ⟨p.owed - 1, 0x80, 0xBF, bits⟩)
    else
      let (chars, next) := start b
      (replacement :: chars, next)

/-- Reads bytes from a state; a character that is cut off at the end is replaced too. -/
def decodeFrom : Option Partial → List UInt8 → List Char
  | none, [] => []
  | some _, [] => [replacement]
  | state, b :: rest => (step state b).1 ++ decodeFrom (step state b).2 rest

/-- The characters of a byte string. -/
def decode (bytes : List UInt8) : List Char := decodeFrom none bytes

@[simp] theorem decode_nil : decode [] = [] := rfl

/-- An ASCII byte at the start is a character of its own. -/
@[simp] theorem decode_cons_ascii (b : UInt8) (rest : List UInt8) (h : b ≤ 0x7F) :
    decode (b :: rest) = Char.ofNat b.toNat :: decode rest := by
  simp [decode, decodeFrom, step, start, h]

example : decode [0xC3, 0xBC] = ['ü'] := by decide
example : decode [0xF0, 0x9F, 0x98, 0x80] = ['😀'] := by decide
example : decode [0xE2, 0x82, 0x41, 0xFF] = [replacement, 'A', replacement] := by decide

end CompactDisc.Text.Utf8
