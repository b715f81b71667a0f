import CompactDisc.Command.Outcome
import CompactDisc.Command.Report

/-!
# CompactDisc.Command.Image

**Listing the tracks of an image and copying its sectors to a file.**

Design points:

* The output is looked at first, then the image is opened, then the output is created. A failure
  before that leaves the output as it was.
* Sectors are copied a chunk at a time, and where a chunk fails those before it stay in the output.
* The output may be a file of the image itself. Each chunk is therefore read from the files as they
  are by then.
-/

namespace CompactDisc.Command

/-- Lists the tracks of an image. -/
def listTracks (storage : Storage) (input : String) : Outcome :=
  match openImage storage input .detached with
  | .error f => .failed f
  | .ok (drive, _) =>
    let listing := Report.listing input drive.disc
    match drive.tracks with
    | .error e => { Outcome.failed (.ofDrive e) with output := Text.lines listing }
    | .ok range => { output := Text.lines (listing ++ ["", Report.summary range]) }

/-- The number of sectors that are read at once. -/
def chunkSize : Nat := 64

/-- A chunk that could not be read. -/
def unreadable (sector : Nat) (e : DriveError) : Failure :=
  ⟨s!"Failed to read sectors starting at {sector}", some e.message⟩

/-- Copies `count` sectors from `sector` on behind what has been written, and gives the failure that
ended it. `drive` is the drive as it is when so much has been written. -/
def copyFrom (drive : Array UInt8 → Drive) (raw : Bool) (sector count : Nat)
    (written : Array UInt8) (cursors : Cursors) : Array UInt8 × Option Failure :=
  if _more : 0 < count then
    let chunk := min count chunkSize
    let buffer := List.replicate (Sector.readSize raw * chunk) 0
    match (drive written).readSectors buffer raw sector chunk cursors with
    | (.error e, _, _) => (written, some (unreadable sector e))
    | (.ok (), bytes, cursors) =>
      copyFrom drive raw (sector + chunk) (count - chunk) (written ++ bytes.toArray) cursors
  else (written, none)
  termination_by count
  decreasing_by simp only [chunkSize]; omega

/-- A drive as it is once the file at `loc` holds what has been written. -/
def driveAfter (drive : Drive) (storage : Storage) (loc : Location) (written : Array UInt8) : Drive :=
  if drive.uses storage loc then drive.refresh (storage.insert loc (.file (.ofArray written)))
  else drive

/-- Copies sectors of an image to a file: all up to the lead-out if no count is given. -/
def copySectors (storage : Storage) (input output : String) (start : Nat) (count : Option Nat)
    (force raw : Bool) : Except Failure Outcome := do
  checkOutput storage output force
  let (drive, d) ← openImage storage input .detached
  let loc ← (storage.target output).mapError .ofFault
  let leadOut := drive.disc.leadOut?.elim 0 (·.start)
  let (bytes, failure?) :=
    copyFrom (driveAfter drive storage loc) raw start (count.getD (leadOut - start)) #[] d.cursors
  let written := some ⟨output, bytes⟩
  return failure?.elim { written } fun f => { Outcome.failed f with written }

@[simp] theorem copyFrom_zero (drive : Array UInt8 → Drive) (raw : Bool) (sector : Nat)
    (written : Array UInt8) (cursors : Cursors) :
    copyFrom drive raw sector 0 written cursors = (written, none) := by
  rw [copyFrom]
  simp

end CompactDisc.Command
