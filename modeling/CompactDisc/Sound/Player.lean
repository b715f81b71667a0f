import CompactDisc.Program.Disc
import CompactDisc.Sound.Mixer
import CompactDisc.Sound.PlayerError
import CompactDisc.Source.Cursors

/-!
# CompactDisc.Sound.Player

**Playing the sound of a disc** through a channel of a mixer.

Design points:

* A request is a span of sectors. It is played in *segments*: each begins in the source of one track
  and goes on as long as that source gives sound. When the source runs dry before the span is done,
  the first sector that has not been played begins the next segment.
* The player only acts when it is asked to: the mixer pulls a number of frames (`Deck.pull`), and
  pulls as long as the channel is enabled (`Deck.pump`).
* Requests, pauses and stops leave the last segment in place, and with it the position that is
  reported, until its disc is released.
* A `Deck` is everything that changes: the player, the mixer and the cursors of the sources.
* A sector number has 32 bits. The one that a request goes on with is a sum that nothing checks, so it
  starts again at zero behind the last number; this is what a build without checks of overflow does.
* A pull has a buffer of as many bytes as its frames take. There is no buffer of 2^63 bytes or more, and
  a number of frames that would need one is not described here.
* What is left of a request shrinks with each pull, first by sectors and then by sample frames
  (`Deck.Nearer`), so playing to the end (`Deck.playOut`) is a recursion on what is left.
-/

namespace CompactDisc

/-- A disc in a drive. The same disc loaded twice is two media. -/
structure Medium where
  id : Nat
  disc : Disc

/-- What is being played from one source. -/
structure Segment where
  medium : Medium
  source : Source
  /-- The sector it begins with. -/
  start : Nat
  /-- Sectors from there to the end of the request. -/
  length : Nat
  /-- Sample frames from there to the end of the request. -/
  total : Nat
  /-- Sample frames decoded so far. -/
  played : Nat

/-- The player. It plays if `playing` holds and `paused` does not. -/
structure Player where
  /-- The channel of the mixer, unless the player has no output. -/
  channel : Option Nat := none
  segment : Option Segment := none
  playing : Bool := false
  paused : Bool := false

/-- The quotient rounded up. -/
def divUp (n d : Nat) : Nat := (n + d - 1) / d

namespace Segment

/-- Sample frames that sectors last at a rate. -/
def framesOf (rate sectors : Nat) : Nat := divUp (rate * sectors) RedBook.framesPerSecond

/-- Sectors of the segment that have been begun, by the clock of the source. -/
def elapsed (s : Segment) : Nat := divUp (s.played * RedBook.framesPerSecond) (max s.source.rate 1)

/-- Sectors of the segment that have been played, as a part of the whole. -/
def completed (s : Segment) : Nat := divUp (s.played * s.length) s.total

/-- The first sector that has not been played. Its number is not checked. -/
def next (s : Segment) : Nat := (s.start + s.completed) % RedBook.sectorNumbers

/-- Up to the last number the sectors are counted on. -/
theorem next_of_lt {s : Segment} (h : s.start + s.completed < RedBook.sectorNumbers) :
    s.next = s.start + s.completed := Nat.mod_eq_of_lt h

end Segment

/-- A request with its track and source found. -/
structure Plan where
  track : Track
  source : Source
  /-- The first sector that is heard. -/
  start : Nat
  /-- Sectors from there to the end of the request. -/
  length : Nat
  /-- The byte of the source to begin with. -/
  offset : Nat

namespace Plan

/-- Finds what a request for `length` sectors from `start` on plays. A start in the gap before a track
keeps the end of the span and begins with the track. -/
def find (disc : Disc) (hasOutput : Bool) (start length : Nat) : Except PlayerError Plan := do
  if length = 0 then throw .emptyRequest
  let some track := disc.track? start | throw (.sectorNotFound start)
  if track.isData then throw (.dataTrack track.number)
  let some source := track.source | throw (.noSource track.number)
  if !hasOutput then throw .noChannel
  let gap := track.start - start
  if 0 < gap ∧ length ≤ gap then throw (.pregapOnly track.number start (start + length))
  return {
    track
    source
    start := max start track.start
    length := length - gap
    offset := track.skip + min (start - track.start) (track.length - 1) * track.sectorSize }

end Plan

/-- The player and all that it works with. -/
structure Deck where
  player : Player := {}
  mixer : Mixer := .empty
  cursors : Cursors := .none
  /-- Media made so far; the next one has this identity. -/
  media : Nat := 0

namespace Deck

/-- The name of the player's channel. -/
def channelName : String := "CDAUDIO"

/-- A player without output, on which nothing can be played. -/
def detached : Deck := {}

/-- A player with a channel of its own on a new mixer. -/
def attached : Deck :=
  let (id, mixer) := Mixer.empty.add channelName RedBook.sampleRate
  { mixer, player := { channel := some id } }

/-- The player's channel. -/
def channel? (d : Deck) : Option Channel := d.player.channel.bind d.mixer.get?

/-- Changes the player's channel, if it has one. -/
def onChannel (d : Deck) (f : Channel → Channel) : Deck :=
  match d.player.channel with
  | none => d
  | some id => { d with mixer := d.mixer.modify id f }

/-- Switches the output on or off. -/
def enable (d : Deck) (on : Bool) : Deck := d.onChannel fun c => { c with enabled := on }

/-- Stops. -/
def stop (d : Deck) : Deck :=
  { d with player := { d.player with playing := false, paused := false } }.enable false

/-- Pauses, or goes on. -/
def pause (d : Deck) (resume : Bool) : Deck :=
  { d with player := { d.player with paused := !resume } }.enable resume

/-- Sets the volume of each side and where it goes. -/
def control (d : Deck) (volume map : Sides UInt8) : Deck :=
  d.onChannel fun c => { c with volume, map }

/-- Begins a segment. -/
def beginSegment (d : Deck) (medium : Medium) (start length : Nat) :
    Except PlayerError Unit × Deck :=
  match Plan.find medium.disc d.player.channel.isSome start length with
  | .error e => (.error e, d)
  | .ok plan =>
    match d.cursors.seek plan.source plan.offset with
    | (.error e, cursors) =>
      (.error (.seek plan.track.number plan.offset e), { d with cursors })
    | (.ok (), cursors) =>
      let rate := plan.source.rate
      let segment := {
        medium
        source := plan.source
        start := plan.start
        length := plan.length
        total := Segment.framesOf rate plan.length
        played := 0 : Segment }
      let player := { d.player with segment := some segment, playing := true, paused := false }
      (.ok (), { d with cursors, player }.onChannel fun c => { c with rate, enabled := true })

/-- Plays `length` sectors of a disc from `start` on. A request that fails stops the player. -/
def play (d : Deck) (medium : Medium) (start length : Nat) : Except PlayerError Unit × Deck :=
  match d.beginSegment medium start length with
  | (.ok (), d) => (.ok (), d)
  | (.error e, d) => (.error e, d.stop)

/-- Stops and forgets a disc if it is the one that was played last. -/
def release (d : Deck) (id : Nat) : Deck :=
  match d.player.segment with
  | none => d
  | some segment =>
    if segment.medium.id = id then
      let d := d.stop
      { d with player := { d.player with segment := none } }
    else d

/-- The sector that has been reached on a disc, if it is the one that was played last. -/
def position (d : Deck) (id : Nat) : Option Nat :=
  match d.player.segment with
  | none => none
  | some segment =>
    let sector := segment.start + segment.elapsed
    if segment.medium.id = id ∧ sector ≤ RedBook.maxSector then some sector else none

/-- Goes on after a pull has brought `decoded` frames: stops at the end of the request and, where the
source has run dry, with the first sector that has not been played. -/
def proceed (d : Deck) (segment : Segment) (decoded : Nat) : Deck :=
  if segment.total ≤ segment.played then d.stop
  else if 0 < decoded then d
  else if segment.completed = 0 then d.stop
  else (d.play segment.medium segment.next (segment.length - segment.completed)).2

/-- Decodes `frames` frames and hands them to the channel. -/
def pull (d : Deck) (frames : Nat) : Deck :=
  if frames = 0 ∨ d.player.playing = false ∨ d.player.paused = true then d
  else
    match d.player.segment, d.player.channel with
    | some segment, some _ =>
      let source := segment.source
      let (sound, cursors) := d.cursors.decode source frames
      let segment := { segment with played := segment.played + sound.frames }
      let player := { d.player with segment := some segment }
      let d := { d with cursors, player }.onChannel fun c =>
        c.forward source.channels source.byteOrder sound.frames
          (sound.bytes.take (sound.frames * source.bytesPerFrame))
      d.proceed segment sound.frames
    | _, _ => d

/-- Pulls `frames` frames if the output is enabled, and says whether it was. -/
def pump (d : Deck) (frames : Nat) : Bool × Deck :=
  if (d.channel?.any (·.enabled)) then (true, d.pull frames) else (false, d)

/-- Pumps until the output is disabled, at most `times` times, and counts. -/
def pumpTimes (d : Deck) (frames : Nat) : Nat → Nat → Nat × Deck
  | done, 0 => (done, d)
  | done, times + 1 =>
    match d.pump frames with
    | (false, d) => (done, d)
    | (true, d) => d.pumpTimes frames (done + 1) times

/-- Sectors left to the end of the request, and the sample frames left in them by the clock of the
source. -/
def left (d : Deck) : Nat × Nat :=
  d.player.segment.elim (0, 0) fun s => (s.length, s.total - s.played)

/-- Whether there is less left on one deck than on another: fewer sectors or, with the same number of
sectors, fewer sample frames. -/
def Nearer (d e : Deck) : Prop := Prod.Lex (· < ·) (· < ·) d.left e.left

/-- What is left can be compared. -/
instance (d e : Deck) : Decidable (d.Nearer e) :=
  decidable_of_iff (d.left.1 < e.left.1 ∨ d.left.1 = e.left.1 ∧ d.left.2 < e.left.2)
    Prod.lex_def.symm

/-- Pumps until the output is disabled. A pump that brings the end no nearer is the last one. -/
def playOut (d : Deck) (frames : Nat) : Deck :=
  match d.pump frames with
  | (false, d) => d
  | (true, next) => if _nearer : next.Nearer d then next.playOut frames else next
  termination_by d.left
  decreasing_by exact _nearer

/-- Takes out what the channel has collected. -/
def drain (d : Deck) : List Int16 × Deck :=
  match d.player.channel with
  | none => ([], d)
  | some id =>
    let (samples, mixer) := d.mixer.drain id
    (samples, { d with mixer })

/-! ### Small laws -/

@[simp] theorem playing_stop (d : Deck) : d.stop.player.playing = false := by
  unfold stop enable onChannel
  split <;> rfl

@[simp] theorem segment_stop (d : Deck) : d.stop.player.segment = d.player.segment := by
  unfold stop enable onChannel
  split <;> rfl

/-- A request that fails leaves the player stopped. -/
theorem playing_of_play_error {d : Deck} {medium : Medium} {start length : Nat} {e : PlayerError}
    (h : (d.play medium start length).1 = .error e) :
    (d.play medium start length).2.player.playing = false := by
  unfold play at h ⊢
  split at h
  · cases h
  · simp

@[simp] theorem pull_zero (d : Deck) : d.pull 0 = d := by simp [pull]

/-- Where the output is disabled there is nothing to play out. -/
theorem playOut_of_disabled {d : Deck} (frames : Nat) (h : d.channel?.any (·.enabled) = false) :
    d.playOut frames = d := by
  rw [playOut]
  simp [pump, h]

/-- Nothing is pulled while the player is paused. -/
theorem pull_of_paused {d : Deck} (frames : Nat) (h : d.player.paused = true) :
    d.pull frames = d := by
  simp [pull, h]

end Deck

end CompactDisc
