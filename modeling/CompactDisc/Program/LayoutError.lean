/-!
# CompactDisc.Program.LayoutError

**Why tracks cannot be laid out one after another.**
-/

namespace CompactDisc

/-- A failure to lay out a track. -/
inductive LayoutError where
  /-- The gap before a track begins after the track itself. -/
  | gapAfterStart (track gap start : Nat)
  /-- The length of a source is needed and not known. -/
  | unknownLength (track : Nat)
  /-- A track would end before it starts. -/
  | negativeLength (track : Nat) (length : Int)
  /-- A sector number or count exceeds what the track list can hold. -/
  | outOfRange (track value : Nat)
  /-- A number does not follow its predecessor, or a track starts before the previous one ends. -/
  | inconsistent (number previous start previousEnd : Nat)
  /-- The last number leaves none for the lead-out. -/
  | numberOverflow (last : Nat)
  /-- There is no track. -/
  | empty
  deriving DecidableEq, Repr

/-- The wording of a failure. -/
def LayoutError.message : LayoutError → String
  | .gapAfterStart track gap start =>
    s!"Track {track}: INDEX 00 at frame {gap} lies after INDEX 01 at frame {start}"
  | .unknownLength track => s!"Track {track}: the length of its source cannot be determined"
  | .negativeLength track length => s!"Track {track}: derived length {length} is negative"
  | .outOfRange track value =>
    s!"Track {track}: sector value {value} is outside the disc address space"
  | .inconsistent number previous start previousEnd =>
    s!"Track {number} failed consistency checks against track {previous}: start {start} must be at or after the previous track's end {previousEnd}"
  | .numberOverflow last => s!"Track {last} cannot be followed by a lead-out"
  | .empty => "No tracks were added to the layout"

end CompactDisc
