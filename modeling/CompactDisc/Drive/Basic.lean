import CompactDisc.Drive.Error
import CompactDisc.Sheet.Load
import CompactDisc.Sound.Player

/-!
# CompactDisc.Drive.Basic

**A drive**: the disc that is in it, what can be read from it, and the way to the player.

Design points:

* A drive always holds a medium; an empty drive holds a blank disc.
* A drive knows its player by identity. What is done with a drive gets the `Deck` of that player; where
  there is but one player, it has the identity zero.
* A file is loaded as a cue sheet, and where that fails as a bare image. Where both fail nothing
  changes; otherwise the old disc is taken out of the player before it goes.
* Sectors are read into a buffer. Reading several fills one slot after another and stops at the first
  that fails: the slots before it are filled and all other bytes are left as they were.
-/

namespace CompactDisc

/-- Where images are looked for. -/
structure Library where
  storage : Storage
  resolver : Sheet.Resolver

/-- The library of a file system, in which sheets name their files by path. -/
def Library.ofStorage (storage : Storage) : Library := ⟨storage, .search storage⟩

/-- Loads a disc, and gives both failures where there is none. -/
def Disc.load (lib : Library) (path : String) (cursors : Cursors) :
    Except DriveError (Disc × Cursors) :=
  match Sheet.load lib.storage lib.resolver path cursors with
  | .ok loaded => .ok loaded
  | .error sheet =>
    match Volume.load lib.storage path cursors with
    | .ok loaded => .ok loaded
    | .error volume => .error (.load path sheet volume)

/-- A disc whose sources are found in a storage as it is now. -/
def Disc.refresh (disc : Disc) (storage : Storage) : Disc :=
  { disc with tracks := disc.tracks.map fun t =>
      { t with source := t.source.map (·.refresh storage) } }

/-- A drive. -/
structure Drive where
  medium : Medium
  /-- The identity of its player. -/
  player : Nat := 0

/-- What a drive says about its tray. -/
structure Tray where
  present : Bool
  changed : Bool
  isOpen : Bool
  deriving DecidableEq, Repr

namespace Drive

/-! ### Discs -/

/-- A drive without a disc, for a player and its deck. -/
def blank (d : Deck) (player : Nat := 0) : Drive × Deck :=
  ({ medium := ⟨d.media, .blank⟩, player }, { d with media := d.media + 1 })

/-- Puts the disc at `path` into the drive. -/
def insert (drive : Drive) (lib : Library) (path : String) (d : Deck) :
    Except DriveError Unit × Drive × Deck :=
  match Disc.load lib path d.cursors with
  | .error e => (.error e, drive, d)
  | .ok (disc, cursors) =>
    let d := { d with cursors }.release drive.medium.id
    (.ok (), { drive with medium := ⟨d.media, disc⟩ }, { d with media := d.media + 1 })

/-- Takes the disc out of the player. -/
def remove (drive : Drive) (d : Deck) : Deck := d.release drive.medium.id

/-- The disc in the drive. -/
def disc (drive : Drive) : Disc := drive.medium.disc

/-- The drive after the files of its disc may have been written to. -/
def refresh (drive : Drive) (storage : Storage) : Drive :=
  { drive with medium := { drive.medium with disc := drive.disc.refresh storage } }

/-- Whether the disc has a source at a location. -/
def uses (drive : Drive) (storage : Storage) (loc : Location) : Bool :=
  drive.disc.tracks.any fun t =>
    t.source.any fun s => (storage.locate s.path).toOption = some loc

/-! ### Sectors -/

/-- The bytes of a sector: all of it if `raw`, and otherwise its user data. Sectors of a gap have no
bytes of their own and read as zeros. -/
def sector (drive : Drive) (raw : Bool) (sector : Nat) (cursors : Cursors) :
    Except DriveError (List UInt8) × Cursors :=
  let size := Sector.readSize raw
  match drive.disc.track? sector with
  | none => (.error (.sectorNotFound sector), cursors)
  | some track =>
    match track.source with
    | none => (.error (.noSource track.number), cursors)
    | some source =>
      if raw ∧ track.sectorSize ≠ RedBook.rawSectorSize then
        (.error (.rawUnsupported track.number track.sectorSize), cursors)
      else if sector < track.start then (.ok (List.replicate size 0), cursors)
      else
        let offset := track.skip + (sector - track.start) * track.sectorSize +
          if raw then 0 else Sector.userDataOffset track.sectorSize track.mode2
        let (result, cursors) := cursors.read source offset size
        (result.mapError .source, cursors)

/-- Reads a sector into the front of a buffer. -/
def readSector (drive : Drive) (buffer : List UInt8) (raw : Bool) (sector : Nat)
    (cursors : Cursors) : Except DriveError Unit × List UInt8 × Cursors :=
  let size := Sector.readSize raw
  if buffer.length < size then (.error (.bufferTooSmall size buffer.length), buffer, cursors)
  else
    match drive.sector raw sector cursors with
    | (.error e, cursors) => (.error e, buffer, cursors)
    | (.ok bytes, cursors) => (.ok (), bytes ++ buffer.drop size, cursors)

/-- Reads `count` sectors into the slots of a buffer that is long enough. -/
def readSlots (drive : Drive) (raw : Bool) (buffer : List UInt8) (sector : Nat)
    (cursors : Cursors) : Nat → Except DriveError Unit × List UInt8 × Cursors
  | 0 => (.ok (), buffer, cursors)
  | count + 1 =>
    if RedBook.maxSector < sector then (.error (.sectorNotFound RedBook.maxSector), buffer, cursors)
    else
      let size := Sector.readSize raw
      match drive.sector raw sector cursors with
      | (.error e, cursors) => (.error e, buffer, cursors)
      | (.ok bytes, cursors) =>
        let (result, rest, cursors) :=
          drive.readSlots raw (buffer.drop size) (sector + 1) cursors count
        (result, bytes ++ rest, cursors)

/-- Reads `count` sectors from `sector` on into a buffer. -/
def readSectors (drive : Drive) (buffer : List UInt8) (raw : Bool) (sector count : Nat)
    (cursors : Cursors) : Except DriveError Unit × List UInt8 × Cursors :=
  let needed := Sector.readSize raw * count
  if buffer.length < needed then (.error (.bufferTooSmall needed buffer.length), buffer, cursors)
  else drive.readSlots raw buffer sector cursors count

/-! ### Reports -/

/-- The playable tracks. -/
def tracks (drive : Drive) : Except DriveError TrackRange :=
  drive.disc.trackRange?.elim (.error .noTracks) .ok

/-- The track at a place. -/
def trackInfo (drive : Drive) (n : Nat) : Except DriveError TrackInfo :=
  (drive.disc.trackInfo? n).elim (.error (.trackOutOfRange n)) .ok

/-- The catalog number, with the control byte it is reported under. -/
def catalog (drive : Drive) : UInt8 × String := (audioAttr, drive.disc.catalog)

/-- The tray of an image is never open. -/
def tray (_ : Drive) : Tray := { present := true, changed := false, isOpen := false }

/-- Loading and unloading is accepted and does nothing. -/
def loadTray (_ : Drive) (_unload : Bool) : Bool := true

/-! ### Sound -/

/-- The sector that the player has reached on this drive's disc. -/
def position (drive : Drive) (d : Deck) : Option Nat := d.position drive.medium.id

/-- The position report. -/
def subchannel (drive : Drive) (d : Deck) : Subchannel := drive.disc.subchannel (drive.position d)

/-- Plays `length` sectors from `start` on. -/
def play (drive : Drive) (start length : Nat) (d : Deck) : Except DriveError Unit × Deck :=
  let (result, d) := d.play drive.medium start length
  (result.mapError .player, d)

/-! ### Small laws -/

@[simp] theorem readSlots_zero (drive : Drive) (raw : Bool) (buffer : List UInt8) (sector : Nat)
    (cursors : Cursors) : drive.readSlots raw buffer sector cursors 0 = (.ok (), buffer, cursors) :=
  rfl

end Drive

end CompactDisc
