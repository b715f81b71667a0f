import CompactDisc.Program.LayoutError
import CompactDisc.Program.Track

/-!
# CompactDisc.Program.Layout

**Laying out tracks in one address space.** A cue sheet gives the start of each track within its own
file; a layout turns this into sectors of the disc, works out where each track is stored, and learns
the length of a track when the next one arrives.

Design points:

* A track of the same source goes on where the sheet says, moved by the sectors of all earlier files
  (`shift`) and by the silent sectors that pregaps have put in since the file began (`inserted`).
* A track of another source begins a file: the previous track takes all that is left of its own
  source, a last sector that is not whole included.
* The gap between INDEX 00 and INDEX 01 is stored in the source but belongs to no track, so it moves
  the byte offset and not the start. A pregap moves the start and not the byte offset.
* A track that cannot be placed is not added, but what has been learnt about the previous track and
  the two sums stays.
-/

namespace CompactDisc

/-- The tracks laid out so far. -/
structure Layout where
  tracks : List Track := []
  /-- Sectors of the files before the current one. -/
  shift : Nat := 0
  /-- Pregap sectors since the current file began. -/
  inserted : Nat := 0

namespace Layout

/-- Nothing laid out. -/
def empty : Layout := {}

/-- A value that the track list can hold. -/
def sector (track value : Nat) : Except LayoutError Nat :=
  if value ≤ RedBook.maxSector then .ok value else .error (.outOfRange track value)

/-- A length that may have come out below zero. -/
def lengthOf (track : Nat) (value : Int) : Except LayoutError Nat :=
  if value < 0 then .error (.negativeLength track value) else sector track value.toNat

/-- Where the next track goes, and the layout with the previous track closed. -/
structure Placement where
  layout : Layout
  start : Nat
  skip : Nat
  previousEnd : Nat

/-- The layout with another last track. -/
def setLast (l : Layout) (t : Track) : Layout := { l with tracks := l.tracks.dropLast ++ [t] }

/-- Places a track behind `prev` in the same source; `gap` sectors before it are passed over. -/
def placeInSource (l : Layout) (prev t : Track) (gap pregap : Nat) :
    Except LayoutError Placement := do
  let start := t.start + l.shift
  let length ←
    if prev.length = 0 then
      lengthOf prev.number ((start + l.inserted : Nat) - (prev.start : Int) - gap)
    else .ok prev.length
  let inserted := l.inserted + pregap
  return {
    layout := { l.setLast { prev with length } with inserted }
    start := start + inserted
    skip := prev.skip + length * prev.sectorSize + gap * t.sectorSize
    previousEnd := prev.start + length }

/-- Places a track at the beginning of another source, after all that is left of `prev`. -/
def placeInNewSource (l : Layout) (prev t : Track) (gap pregap : Nat) :
    Except LayoutError Placement :=
  match prev.source.bind Source.length with
  | none => .error (.unknownLength prev.number)
  | some total => do
    let remaining ← if total < prev.skip then
        .error (.negativeLength prev.number ((total : Int) - prev.skip))
      else .ok (total - prev.skip)
    let length ← sector prev.number ((remaining + prev.sectorSize - 1) / prev.sectorSize)
    let previousEnd := prev.start + length
    return {
      layout := { l.setLast { prev with length } with
        shift := l.shift + previousEnd
        inserted := pregap }
      start := t.start + previousEnd + pregap
      skip := gap * t.sectorSize
      previousEnd }

/-- Places a track behind `prev`. -/
def placeAfter (l : Layout) (prev t : Track) (gap pregap : Nat) : Except LayoutError Placement :=
  if prev.sharesSource t then l.placeInSource prev t gap pregap
  else l.placeInNewSource prev t gap pregap

/-- Checks a placed track against the previous one. -/
def check (prev t : Track) (p : Placement) : Except LayoutError Nat :=
  if t.number ≤ 1 ∨ prev.number + 1 ≠ t.number ∨ p.start < p.previousEnd then
    .error (.inconsistent t.number prev.number p.start p.previousEnd)
  else sector t.number p.start

/-- Adds a track whose `start` is still its INDEX 01 within its file. `prestart` is its INDEX 00 and
`pregap` the silence before it. -/
def add (l : Layout) (t : Track) (prestart : Option Nat) (pregap : Nat) :
    Except LayoutError Unit × Layout :=
  let gapStart := prestart.getD t.start
  if t.start < gapStart then (.error (.gapAfterStart t.number gapStart t.start), l)
  else
    let gap := t.start - gapStart
    match l.tracks.getLast? with
    | none =>
      match sector t.number (t.start + pregap) with
      | .error e => (.error e, l)
      | .ok start =>
        (.ok (), { l with
          tracks := [{ t with start, skip := gap * t.sectorSize }]
          inserted := pregap })
    | some prev =>
      match l.placeAfter prev t gap pregap with
      | .error e => (.error e, l)
      | .ok p =>
        match check prev t p with
        | .error e => (.error e, p.layout)
        | .ok start =>
          (.ok (), { p.layout with tracks := p.layout.tracks ++ [{ t with start, skip := p.skip }] })

/-- The lead-out behind a last track. -/
def leadOut (last : Track) : Track :=
  { number := last.number + 1, attr := audioAttr, sectorSize := last.sectorSize }

/-- Closes the layout with the lead-out, whose start is the number of sectors on the disc. -/
def close (l : Layout) : Except LayoutError Unit × Layout :=
  match l.tracks.getLast? with
  | none => (.error .empty, l)
  | some last =>
    if last.number = 255 then (.error (.numberOverflow last.number), l)
    else l.add (leadOut last) none 0

@[simp] theorem close_empty : empty.close = (.error .empty, empty) := rfl

end Layout

end CompactDisc
