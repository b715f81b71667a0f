import CompactDisc.Program.Disc
import CompactDisc.Source.Cursors
import CompactDisc.Volume.Descriptor

/-!
# CompactDisc.Volume.Load

**Loading a disc from a bare image of a data track.**

Nothing in such a file says how its sectors are stored. Each of the four usual forms is tried in
order: the first that shows a primary descriptor where it puts sector 16 is taken.
-/

namespace CompactDisc

/-- A failure to load a bare image. -/
inductive VolumeError where
  | source (error : SourceError)
  /-- No form of sector shows a descriptor. -/
  | noDescriptor (path : String)
  /-- The sectors cannot be counted in a track list. -/
  | tooLarge (path : String)
  deriving DecidableEq, Repr

/-- The wording of a failure. -/
def VolumeError.message : VolumeError → String
  | .source error => error.message
  | .noDescriptor path => "No ISO9660 or High Sierra volume descriptor found in " ++ path
  | .tooLarge path => path ++ " is too large for a CD-ROM"

namespace Volume

/-- A form in which data sectors are stored. -/
structure Form where
  sectorSize : Nat
  mode2 : Bool
  deriving DecidableEq, Repr

/-- The forms in the order in which they are tried. -/
def forms : List Form :=
  [⟨RedBook.cookedSectorSize, false⟩, ⟨RedBook.rawSectorSize, false⟩,
    ⟨RedBook.mode2SectorSize, true⟩, ⟨RedBook.rawSectorSize, true⟩]

/-- Where a form puts the user data of the descriptor's sector. -/
def Form.descriptorOffset (form : Form) : Nat :=
  descriptorSector * form.sectorSize + Sector.userDataOffset form.sectorSize form.mode2

/-- Whether a primary descriptor shows up in a form. Where the file ends early, zeros follow. -/
def shows (cursors : Cursors) (source : Source) (form : Form) : Bool × Cursors :=
  let size := RedBook.cookedSectorSize
  match cursors.use source (source.readAvailable form.descriptorOffset size) with
  | (.error _, cursors) => (false, cursors)
  | (.ok found, cursors) =>
    (isPrimary (found ++ List.replicate (size - found.length) 0), cursors)

/-- The first form that shows a descriptor. -/
def detect (cursors : Cursors) (source : Source) : List Form → Option Form × Cursors
  | [] => (none, cursors)
  | form :: rest =>
    match shows cursors source form with
    | (true, cursors) => (some form, cursors)
    | (false, cursors) => detect cursors source rest

/-- The disc with one data track of `length` sectors in the given form. -/
def disc (source : Source) (form : Form) (length : Nat) : Disc :=
  { tracks := [
      { number := 1, attr := dataAttr, start := 0, length, skip := 0,
        sectorSize := form.sectorSize, mode2 := form.mode2, source := some source },
      { number := 2, attr := audioAttr, start := length }] }

/-- Loads the image at `path` as one data track and the lead-out. -/
def load (storage : Storage) (path : String) (cursors : Cursors) :
    Except VolumeError (Disc × Cursors) :=
  match cursors.openSource storage path .binary with
  | .error e => .error (.source e)
  | .ok (source, cursors) =>
    match detect cursors source forms with
    | (none, _) => .error (.noDescriptor path)
    | (some form, cursors) =>
      let length := source.length.getD 0 / form.sectorSize
      if length ≤ RedBook.maxSector then .ok (disc source form length, cursors)
      else .error (.tooLarge path)

end Volume

end CompactDisc
