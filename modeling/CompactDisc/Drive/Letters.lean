import CompactDisc.Drive.Basic

/-!
# CompactDisc.Drive.Letters

**Drives by letter**, A to Z, which are given a player when they are mounted.

Design points:

* Players are known by identity, and a drive keeps the one that it was given. What is done with a mounted
  drive runs on the `Deck` of its own player, with the registry's mixer and cursors
  (`Registry.onDrive`).
* The registry has a player that it gives to the drives, and that player its channel, while something is
  mounted: the first image that is mounted brings them and the last one takes them away. A mount that
  fails on an empty registry leaves no player.
-/

namespace CompactDisc

namespace Letter

/-- The number of drive letters. -/
def count : Nat := 26

/-- The letter of a drive; the number is taken modulo 256. -/
def ofDrive (drive : Nat) : Char := Char.ofNat (('A'.toNat + drive) % 256)

/-- The drive that a letter of either case stands for. -/
def drive? (c : Char) : Option Nat :=
  let upper := c.toUpper
  if upper.isUpper then some (upper.toNat - 'A'.toNat) else none

end Letter

/-- The mounted drives. -/
structure Registry where
  drives : List (Option Drive)
  /-- The players made so far, each in the place of its identity. -/
  players : List Player := []
  /-- The identity of the player that drives are given. -/
  shared : Option Nat := none
  mixer : Mixer := .empty
  cursors : Cursors := .none
  /-- Media made so far. -/
  media : Nat := 0

namespace Registry

/-- Nothing mounted. -/
def empty : Registry := { drives := List.replicate Letter.count none }

/-- The mounted drive at a letter. -/
def drive? (r : Registry) (n : Nat) : Option Drive := r.drives[n]?.join

/-- How many drives are mounted. -/
def mounted (r : Registry) : Nat := r.drives.countP (·.isSome)

/-- The player that drives are given. -/
def player (r : Registry) : Option Player := r.shared.bind (r.players[·]?)

/-- The deck of a player. -/
def deckOf (r : Registry) (id : Nat) : Deck where
  player := r.players[id]?.getD {}
  mixer := r.mixer
  cursors := r.cursors
  media := r.media

/-- The registry after something was done with the deck of a player. -/
def withDeckOf (r : Registry) (id : Nat) (d : Deck) : Registry :=
  { r with
    players := r.players.set id d.player
    mixer := d.mixer
    cursors := d.cursors
    media := d.media }

/-- The identity of the player that drives are given; where there is none, it is made with a channel. -/
def sharedPlayer (r : Registry) : Nat × Registry :=
  match r.shared with
  | some id => (id, r)
  | none =>
    let (channel, mixer) := r.mixer.add Deck.channelName RedBook.sampleRate
    (r.players.length, { r with
      players := r.players ++ [{ channel := some channel }]
      shared := some r.players.length
      mixer })

/-- The deck of this player. -/
def deck (r : Registry) : Deck := r.sharedPlayer.2.deckOf r.sharedPlayer.1

/-- The registry after something was done with the deck of this player. -/
def withDeck (r : Registry) (d : Deck) : Registry := r.sharedPlayer.2.withDeckOf r.sharedPlayer.1 d

/-- Takes the player away if nothing is mounted. -/
def releasePlayer (r : Registry) : Registry :=
  if 0 < r.mounted then r
  else
    match r.shared with
    | none => r
    | some id =>
      let d := (r.deckOf id).stop
      let mixer := d.player.channel.elim d.mixer d.mixer.remove
      { r.withDeckOf id { d with mixer } with shared := none }

/-- Takes the disc of a drive out of the player of this drive. -/
def release (r : Registry) (drive : Drive) : Registry :=
  r.withDeckOf drive.player (drive.remove (r.deckOf drive.player))

/-- Mounts the image at `path`. -/
def mount (r : Registry) (lib : Library) (n : Nat) (path : String) :
    Except LetterError Drive × Registry :=
  if Letter.count ≤ n then (.error (.invalidDrive n), r)
  else if (r.drive? n).isSome then (.error (.inUse (Letter.ofDrive n)), r)
  else
    let (drive, d) := Drive.blank r.deck r.sharedPlayer.1
    match drive.insert lib path d with
    | (.error e, drive, d) => (.error (.drive e), ((r.withDeck d).release drive).releasePlayer)
    | (.ok (), drive, d) =>
      (.ok drive, { r.withDeck d with drives := r.drives.set n (some drive) })

/-- Takes the image out of a drive. -/
def unmount (r : Registry) (n : Nat) : Except LetterError Unit × Registry :=
  if Letter.count ≤ n then (.error (.invalidDrive n), r)
  else
    match r.drive? n with
    | none => (.error (.notMounted (Letter.ofDrive n)), r)
    | some drive =>
      (.ok (), ({ r with drives := r.drives.set n none }.release drive).releasePlayer)

/-- Does something with a mounted drive, on the deck of its player. -/
def onDrive {α : Type} (r : Registry) (n : Nat) (f : Drive → Deck → α × Drive × Deck) :
    Option (α × Registry) :=
  (r.drive? n).map fun drive =>
    let (a, after, d) := f drive (r.deckOf drive.player)
    (a, { r.withDeckOf drive.player d with drives := r.drives.set n (some after) })

/-- Takes out all images, in the order of their letters. -/
def clear (r : Registry) : Registry :=
  let released := r.drives.foldl (fun r drive => drive.elim r r.release) r
  { released with drives := List.replicate Letter.count none }.releasePlayer

/-! ### Players -/

variable {r : Registry} {id : Nat}

/-- What was done with a deck before is lost. -/
theorem withDeckOf_withDeckOf (d e : Deck) : (r.withDeckOf id d).withDeckOf id e = r.withDeckOf id e := by
  unfold withDeckOf
  dsimp only
  rw [List.set_set]

theorem player_eq_some_iff {p : Player} :
    r.player = some p ↔ ∃ id, r.shared = some id ∧ r.players[id]? = some p :=
  Option.bind_eq_some_iff

end Registry

end CompactDisc
