import CompactDisc.Sheet.Error
import CompactDisc.Sound.PlayerError
import CompactDisc.Volume.Load

/-!
# CompactDisc.Drive.Error

**Why a drive cannot do what it is asked**, and why a drive letter cannot be used.
-/

namespace CompactDisc

/-- A failure of a drive. -/
inductive DriveError where
  /-- A file is neither a cue sheet nor a bare image. -/
  | load (path : String) (sheet : SheetError) (volume : VolumeError)
  | sectorNotFound (sector : Nat)
  | noSource (track : Nat)
  /-- The track does not store whole sectors. -/
  | rawUnsupported (track sectorSize : Nat)
  | bufferTooSmall (needed size : Nat)
  /-- There are too few tracks to name a first and a last one. -/
  | noTracks
  | trackOutOfRange (track : Nat)
  | source (error : SourceError)
  | player (error : PlayerError)
  deriving DecidableEq, Repr

/-- The wording of a failure. -/
def DriveError.message : DriveError → String
  | .load path sheet volume =>
    "Could not load " ++ path ++ " as a cue sheet (" ++ sheet.message ++
      ") or as an ISO image (" ++ volume.message ++ ")"
  | .sectorNotFound sector => s!"Sector {sector} is outside the disc"
  | .noSource track => s!"Track {track} has no backing source"
  | .rawUnsupported track sectorSize =>
    s!"Track {track} stores {sectorSize}-byte sectors, raw reads need 2352"
  | .bufferTooSmall needed size => s!"Buffer of {size} bytes cannot hold {needed} bytes"
  | .noTracks => "The disc has too few tracks to describe"
  | .trackOutOfRange track => s!"Track {track} is out of range"
  | .source error => error.message
  | .player error => error.message

/-- The failure behind a failure, if it has one. -/
def DriveError.cause? : DriveError → Option SourceError
  | .player error => error.cause?
  | _ => none

/-- A failure to use a drive letter. -/
inductive LetterError where
  /-- No letter has this number. -/
  | invalidDrive (drive : Nat)
  | inUse (letter : Char)
  | notMounted (letter : Char)
  | drive (error : DriveError)
  deriving DecidableEq, Repr

/-- The wording of a failure. -/
def LetterError.message : LetterError → String
  | .invalidDrive n => s!"Drive index {n} is out of range, only A: to Z: exist"
  | .inUse letter => s!"Drive {letter}: already has an image mounted"
  | .notMounted letter => s!"Drive {letter}: has no image mounted"
  | .drive error => error.message

/-- The failure behind a failure, if it has one. -/
def LetterError.cause? : LetterError → Option SourceError
  | .drive error => error.cause?
  | _ => none

end CompactDisc
