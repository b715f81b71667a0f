import CompactDisc.Program.Sector
import CompactDisc.Source.Basic

/-!
# CompactDisc.Program.Track

**Tracks**: contiguous runs of sectors with the source they are stored in.

The lead-out, which closes every track list, is a track without a source whose length is zero.
-/

namespace CompactDisc

/-- A run of sectors. -/
structure Track where
  number : Nat := 0
  attr : UInt8 := 0
  /-- The first sector, counted from logical sector 0. -/
  start : Nat := 0
  /-- The number of sectors. -/
  length : Nat := 0
  /-- The byte at which the first sector is stored. -/
  skip : Nat := 0
  /-- Bytes of one stored sector. -/
  sectorSize : Nat := 0
  mode2 : Bool := false
  source : Option Source := none

namespace Track

/-- The track with the properties of a track type. -/
def withMode (t : Track) (m : TrackMode) : Track :=
  { t with sectorSize := m.sectorSize, attr := m.attr, mode2 := m.isMode2 }

/-- Whether the track holds sound. -/
def isAudio (t : Track) : Bool := t.attr == audioAttr

/-- Whether the track holds data. -/
def isData (t : Track) : Bool := t.attr == dataAttr

/-- The first sector after the track. -/
def endSector (t : Track) : Nat := t.start + t.length

/-- Whether two tracks are stored in the same source; two tracks without any count as such. -/
def sharesSource (t u : Track) : Bool := t.source.map (·.id) == u.source.map (·.id)

@[simp] theorem endSector_of_length_zero {t : Track} (h : t.length = 0) : t.endSector = t.start := by
  simp [endSector, h]

@[simp] theorem sharesSource_self (t : Track) : t.sharesSource t = true := by
  simp [sharesSource]

theorem sharesSource_comm (t u : Track) : t.sharesSource u = u.sharesSource t := by
  simp [sharesSource, Bool.beq_comm]

end Track

end CompactDisc
