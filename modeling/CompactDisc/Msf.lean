import CompactDisc.RedBook
import CompactDisc.Text.Numeral
import CompactDisc.Text.Pieces

/-!
# CompactDisc.Msf

**Positions written as minute, second and frame**, 75 frames to the second.

Design points:

* Each part is a byte. `Msf.ofFrames` keeps the minute modulo 256, so a position of 256 minutes or
  more does not come back; below that `toFrames` and `ofFrames` are inverse to each other.
* `Msf.absolute` is the position of a sector counted from the start of the lead-in. The sum keeps the 32
  bits that the number of a sector has.
* `Msf.parse?` accepts any three bytes between colons, in any number of digits; seconds and frames
  are not held below 60 and 75.
-/

namespace CompactDisc

/-- A position on a disc. -/
structure Msf where
  minute : UInt8
  second : UInt8
  frame : UInt8
  deriving DecidableEq, Repr, Inhabited

namespace Msf

/-- The position zero. -/
def zero : Msf := ⟨0, 0, 0⟩

/-- The number of frames before the position. -/
def toFrames (p : Msf) : Nat :=
  (p.minute.toNat * 60 + p.second.toNat) * RedBook.framesPerSecond + p.frame.toNat

/-- The position after `n` frames, its minute modulo 256. -/
def ofFrames (n : Nat) : Msf :=
  { minute := UInt8.ofNat (n / RedBook.framesPerMinute)
    second := UInt8.ofNat (n % RedBook.framesPerMinute / RedBook.framesPerSecond)
    frame := UInt8.ofNat (n % RedBook.framesPerSecond) }

/-- The position of a sector counted from the start of the lead-in. The sum is not checked. -/
def absolute (sector : Nat) : Msf := ofFrames ((sector + RedBook.leadIn) % RedBook.sectorNumbers)

@[simp] theorem ofFrames_zero : ofFrames 0 = zero := rfl

/-- The second of a frame count is below 60. -/
theorem second_ofFrames_lt (n : Nat) : (ofFrames n).second.toNat < 60 := by
  simp only [ofFrames, RedBook.framesPerMinute, RedBook.framesPerSecond, UInt8.toNat_ofNat']
  omega

/-- The frame of a frame count is below 75. -/
theorem frame_ofFrames_lt (n : Nat) : (ofFrames n).frame.toNat < 75 := by
  simp only [ofFrames, RedBook.framesPerSecond, UInt8.toNat_ofNat']
  omega

/-- The number of frames before the last position that can be written, which is 255:255:255. -/
def maxFrames : Nat := 1166880

theorem toFrames_le (p : Msf) : p.toFrames ≤ maxFrames := by
  have hminute := p.minute.toNat_lt
  have hsecond := p.second.toNat_lt
  have hframe := p.frame.toNat_lt
  unfold toFrames RedBook.framesPerSecond maxFrames
  omega

/-! ### Text -/

/-- A byte in decimal, with at least two digits. -/
def twoDigits (b : UInt8) : String :=
  if b < 10 then "0" ++ toString b.toNat else toString b.toNat

/-- The position as `mm:ss:ff`. -/
def text (p : Msf) : String :=
  twoDigits p.minute ++ ":" ++ twoDigits p.second ++ ":" ++ twoDigits p.frame

/-- One part of a position. -/
def part? (text : List Char) : Option UInt8 :=
  (Text.Numeral.parse Text.Numeral.max8 text).toOption.map UInt8.ofNat

/-- Reads a position: three parts between colons. -/
def parse? (text : List Char) : Option Msf :=
  match pieces ':' text with
  | [m, s, f] => do some ⟨← part? m, ← part? s, ← part? f⟩
  | _ => none

example : parse? "99:59:74".toList = some ⟨99, 59, 74⟩ := by cbv
example : parse? "1:2".toList = none := by cbv

end Msf

end CompactDisc
