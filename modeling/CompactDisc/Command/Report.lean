import CompactDisc.Program.Disc
import CompactDisc.Storage.Path
import CompactDisc.Text.Columns

/-!
# CompactDisc.Command.Report

**The track list of a disc as text.**

Design points:

* A heading names the image, its catalog number if it has one, and whether it holds data. One row for
  each playable track follows; the lead-out has no row and is named in the last line.
* Rows show the numbers of the layout as they are; only the position is counted from the start of the
  lead-in. A track whose source has no file name leaves its last column empty.
-/

namespace CompactDisc.Command.Report

open Text (left right)

/-- The names of the columns. -/
def columns : String := "  #  type    start   length  sector  mode2  skip        position  file"

/-- What precedes the rows. -/
def heading (path : String) (disc : Disc) : List String :=
  ["Image:      " ++ path] ++
    (if disc.catalog.isEmpty then [] else ["Catalog:    " ++ disc.catalog]) ++
    ["Data track: " ++ (if disc.hasData then "yes" else "no"), "", columns]

/-- The name of the file that a track is stored in. -/
def fileName (track : Track) : String := track.source.elim "" fun source => Path.fileName source.path

/-- The row of a track. -/
def row (track : Track) : String :=
  " " ++ String.intercalate "  " [
    right 2 (toString track.number),
    left 6 (if track.isAudio then "audio" else "data") ++ " " ++ right 7 (toString track.start),
    right 7 (toString track.length),
    right 6 (toString track.sectorSize),
    left 5 (if track.mode2 then "true" else "false"),
    left 10 (toString track.skip),
    (Msf.absolute track.start).text,
    fileName track]

/-- The heading and the rows. -/
def listing (path : String) (disc : Disc) : List String :=
  heading path disc ++ disc.tracks.dropLast.map row

/-- The line that closes the report. -/
def summary (range : TrackRange) : String :=
  s!"Tracks {range.first}-{range.last}, lead-out at " ++ range.leadOut.text

@[simp] theorem length_listing (path : String) (disc : Disc) :
    (listing path disc).length = (heading path disc).length + (disc.tracks.length - 1) := by
  simp [listing]

end CompactDisc.Command.Report
