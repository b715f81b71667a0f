import CompactDisc.Msf
import CompactDisc.Program.Track

/-!
# CompactDisc.Program.Disc

**A disc**: its tracks in order, the lead-out last, and its catalog number.

Design points:

* `Disc.track? sector` is the track that owns a sector. A gap before a track belongs to that track,
  so the owner is found by the ends alone: it is the first track that ends after the sector.
* Sectors from the lead-out on, and those past the last address, belong to no track.
* Positions reported to the outside count from the start of the lead-in (`Msf.absolute`).
-/

namespace CompactDisc

/-- The tracks of a disc, ending in the lead-out, and its catalog number. -/
structure Disc where
  tracks : List Track := []
  catalog : String := ""

/-- A disc by default has no tracks. -/
instance : Inhabited Disc := ⟨{}⟩

/-- The numbers of the first and the last playable track, and where the lead-out begins. -/
structure TrackRange where
  first : Nat
  last : Nat
  leadOut : Msf
  deriving DecidableEq, Repr

/-- Where a track begins and what it holds. -/
structure TrackInfo where
  start : Msf
  attr : UInt8
  deriving DecidableEq, Repr

/-- The position report of the subchannel. -/
structure Subchannel where
  attr : UInt8
  track : Nat
  index : Nat
  relative : Msf
  absolute : Msf
  deriving DecidableEq, Repr

namespace Disc

/-- A drive without a disc. -/
def blank : Disc := {}

/-- The track that closes the list. -/
def leadOut? (d : Disc) : Option Track := d.tracks.getLast?

/-- The first track that ends after `sector`, if `sector` is not before all of them. -/
def search (sector : Nat) : Nat → List Track → Option Track
  | _, [] => none
  | lower, t :: rest =>
    if lower ≤ sector ∧ sector < t.endSector then some t else search sector t.endSector rest

/-- The track that owns a sector. -/
def track? (d : Disc) (sector : Nat) : Option Track :=
  match d.tracks, d.leadOut? with
  | first :: _, some last =>
    if RedBook.lastSector < sector ∨ d.tracks.length < RedBook.minEntries ∨ last.start ≤ sector then
      none
    else search sector first.start d.tracks
  | _, _ => none

/-- The range of playable tracks. -/
def trackRange? (d : Disc) : Option TrackRange :=
  if d.tracks.length < RedBook.minEntries then none
  else d.leadOut?.map fun last =>
    { first := 1
      last := min (d.tracks.length - 1) RedBook.maxTracks
      leadOut := Msf.absolute last.start }

/-- What is known about the track at place `n`, counted from 1. -/
def trackInfo? (d : Disc) (n : Nat) : Option TrackInfo :=
  if n < 1 ∨ RedBook.maxTracks < n ∨ d.tracks.length ≤ n then none
  else d.tracks[n - 1]?.map fun t => { start := Msf.absolute t.start, attr := t.attr }

/-- Whether any track holds data. -/
def hasData (d : Disc) : Bool := d.tracks.any Track.isData

/-- The track and sectors to report at a position: the owner of the sector that has been reached,
or else the start of the first track; before anything was played, the first track with sound. -/
def reported (d : Disc) (first : Track) : Option Nat → Track × Nat × Nat
  | some sector =>
    match d.track? sector with
    | some t => (t, sector, sector - t.start)
    | none => (first, first.start, 0)
  | none =>
    let t := (d.tracks.find? Track.isAudio).getD first
    (t, t.start, 0)

/-- The position report, given the sector that the player has reached. -/
def subchannel (d : Disc) (position : Option Nat) : Subchannel :=
  match d.tracks.head? with
  | none => { attr := 0, track := 1, index := 1, relative := .zero, absolute := Msf.absolute 0 }
  | some first =>
    let (t, absolute, relative) := d.reported first position
    { attr := t.attr
      track := t.number
      index := 1
      relative := Msf.ofFrames relative
      absolute := Msf.absolute absolute }

/-! ### Small laws -/

@[simp] theorem track?_blank (sector : Nat) : blank.track? sector = none := rfl

@[simp] theorem search_nil (sector lower : Nat) : search sector lower [] = none := rfl

/-- What is found is a track of the list. -/
theorem mem_of_search {sector lower : Nat} {ts : List Track} {t : Track}
    (h : search sector lower ts = some t) : t ∈ ts := by
  induction ts generalizing lower with
  | nil => simp at h
  | cons u rest ih =>
    simp only [search] at h
    split at h
    · simp_all
    · exact List.mem_cons_of_mem _ (ih h)

/-- The owner of a sector is a track of the disc. -/
theorem mem_of_track? {d : Disc} {sector : Nat} {t : Track} (h : d.track? sector = some t) :
    t ∈ d.tracks := by
  unfold track? at h
  split at h
  · split at h
    · cases h
    · exact mem_of_search h
  · cases h

end Disc

end CompactDisc
