import CompactDisc.RedBook

/-!
# CompactDisc.Program.Sector

**How sectors are stored**: the track types of a cue sheet, and where the user data lies inside a
stored sector.
-/

namespace CompactDisc

/-- The control byte of a data track; audio tracks have zero. -/
def dataAttr : UInt8 := 0x40

/-- The control byte of an audio track. -/
def audioAttr : UInt8 := 0

/-- The track types that a cue sheet can name. -/
inductive TrackMode where
  | audio
  /-- Mode 1, user data alone. -/
  | mode1Cooked
  /-- Mode 1, whole sectors. -/
  | mode1Raw
  /-- Mode 2 without sync pattern and header. -/
  | mode2Stripped
  /-- Mode 2, whole sectors. -/
  | mode2Raw
  deriving DecidableEq, Repr

namespace TrackMode

/-- How the type is written in a sheet. -/
def name : TrackMode → String
  | .audio => "AUDIO"
  | .mode1Cooked => "MODE1/2048"
  | .mode1Raw => "MODE1/2352"
  | .mode2Stripped => "MODE2/2336"
  | .mode2Raw => "MODE2/2352"

/-- Every track type. -/
def all : List TrackMode := [.audio, .mode1Cooked, .mode1Raw, .mode2Stripped, .mode2Raw]

/-- The type that is written so. -/
def ofName? (name : String) : Option TrackMode := all.find? (·.name = name)

/-- Bytes of one stored sector. -/
def sectorSize : TrackMode → Nat
  | .mode1Cooked => RedBook.cookedSectorSize
  | .mode2Stripped => RedBook.mode2SectorSize
  | .audio | .mode1Raw | .mode2Raw => RedBook.rawSectorSize

/-- The control byte of such a track. -/
def attr : TrackMode → UInt8
  | .audio => audioAttr
  | _ => dataAttr

/-- Whether sectors carry the subheader of mode 2. -/
def isMode2 : TrackMode → Bool
  | .mode2Stripped | .mode2Raw => true
  | _ => false

@[simp] theorem ofName?_name (m : TrackMode) : ofName? m.name = some m := by
  cases m <;> decide

theorem sectorSize_pos (m : TrackMode) : 0 < m.sectorSize := by
  cases m <;> decide

end TrackMode

namespace Sector

/-- Bytes before the user data of a sector: sync pattern, header and, in mode 2, subheader. -/
def userDataOffset (sectorSize : Nat) (mode2 : Bool) : Nat :=
  if mode2 then 24 else if sectorSize = RedBook.rawSectorSize then 16 else 0

/-- The number of bytes that reading one sector yields. -/
def readSize (raw : Bool) : Nat :=
  if raw then RedBook.rawSectorSize else RedBook.cookedSectorSize

@[simp] theorem readSize_true : readSize true = 2352 := rfl

@[simp] theorem readSize_false : readSize false = 2048 := rfl

end Sector

end CompactDisc
