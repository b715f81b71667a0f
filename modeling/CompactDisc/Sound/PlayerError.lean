import CompactDisc.Source.Error

/-!
# CompactDisc.Sound.PlayerError

**Why a span of a disc cannot be played.**
-/

namespace CompactDisc

/-- A failure to play. -/
inductive PlayerError where
  /-- The span has no sectors. -/
  | emptyRequest
  /-- No track owns the first sector. -/
  | sectorNotFound (sector : Nat)
  /-- The span ends before the track begins. -/
  | pregapOnly (track start stop : Nat)
  | dataTrack (track : Nat)
  | noSource (track : Nat)
  /-- The player has no output. -/
  | noChannel
  /-- The source cannot be positioned. -/
  | seek (track offset : Nat) (source : SourceError)
  deriving DecidableEq, Repr

/-- The wording of a failure. -/
def PlayerError.message : PlayerError → String
  | .emptyRequest => "Nothing to play: the request covers zero sectors"
  | .sectorNotFound sector => s!"Sector {sector} is not inside any playable track"
  | .pregapOnly track start stop =>
    s!"Sectors {start}..{stop} lie entirely in the pregap of track {track}"
  | .dataTrack track => s!"Track {track} is a data track"
  | .noSource track => s!"Track {track} has no backing source"
  | .noChannel => "No mixer channel is attached to the player"
  | .seek track offset _ => s!"Track {track} failed to seek to byte {offset}"

/-- The failure behind a failure, if it has one. -/
def PlayerError.cause? : PlayerError → Option SourceError
  | .seek _ _ source => some source
  | _ => none

end CompactDisc
