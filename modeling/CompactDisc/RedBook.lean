/-!
# CompactDisc.RedBook

**The numbers of the audio disc standard**: frames per second, sector sizes, and the limits of the
address space.

A *frame* of the disc is one sector, 75 to the second; a *sample frame* is one sample for each
channel, 44 100 to the second.
-/

namespace CompactDisc.RedBook

/-- Sectors played in one second. -/
def framesPerSecond : Nat := 75

/-- Sectors played in one minute. -/
def framesPerMinute : Nat := 4500

/-- Sample frames played in one second. -/
def sampleRate : Nat := 44100

theorem sampleRate_pos : 0 < sampleRate := by decide

/-- Left and right. -/
def channels : Nat := 2

/-- Bytes of one sample frame: two samples of sixteen bits. -/
def bytesPerSampleFrame : Nat := 4

/-- Bytes of a whole sector. -/
def rawSectorSize : Nat := 2352

/-- Bytes of user data in a data sector. -/
def cookedSectorSize : Nat := 2048

/-- Bytes of a mode 2 sector stored without its sync pattern and header. -/
def mode2SectorSize : Nat := 2336

/-- The last sector that can be addressed. -/
def lastSector : Nat := 399999

/-- The greatest number of playable tracks. -/
def maxTracks : Nat := 99

/-- The fewest entries of a usable track list: one track and the lead-out. -/
def minEntries : Nat := 2

/-- Sectors before logical sector 0, counted in absolute positions. -/
def leadIn : Nat := 150

/-- The greatest sector number a track list can hold. -/
def maxSector : Nat := 0xFFFFFFFF

/-- The numbers of sectors, which start again at zero where nothing checks them. -/
def sectorNumbers : Nat := 0x100000000

end CompactDisc.RedBook
