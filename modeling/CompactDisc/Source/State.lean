import CompactDisc.Pcm.Decoder
import CompactDisc.Source.Basic

/-!
# CompactDisc.Source.State

**Calls of a source, one after another**, and what an opened file keeps between them.

Design points:

* `Source.call` is what a source at a cursor answers. The cursor is all that is kept, and it is what
  the player and the drives work with.
* `Source.State` is what is really there: a position in a file of sectors, or a decoder with its
  packet half handed out. Every call takes as much from a decoder as it asks for, so the cursor stands
  for it (`Source.State.call_shows`).
* Sectors can be read as far as their file goes; sound has no such call.
-/

namespace CompactDisc.Source

/-- A call of a source. -/
inductive Call where
  /-- Reads exactly `length` bytes. -/
  | read (offset length : Nat)
  /-- Reads at most `length` bytes. -/
  | readAvailable (offset length : Nat)
  | seek (offset : Nat)
  /-- Decodes at most `frames` sample frames into `room` bytes. -/
  | decode (frames room : Nat)
  deriving DecidableEq, Repr

/-- What a call answers. -/
inductive Answer where
  | bytes (result : Except SourceError (List UInt8))
  | moved (result : Except SourceError Unit)
  | sound (sound : Sound)
  /-- The source has no such call. -/
  | refused

/-- Calls one after another, of something that changes with each. -/
def perform {σ : Type} (step : σ → Call → Answer × σ) (state : σ) : List Call → List Answer × σ
  | [] => ([], state)
  | call :: calls =>
    let (answer, state) := step state call
    let (answers, state) := perform step state calls
    (answer :: answers, state)

/-- What a source at a cursor answers, and the cursor behind it. -/
def call (s : Source) (cursor : Nat) : Call → Answer × Nat
  | .read offset length =>
    let (result, cursor) := s.read offset length cursor
    (.bytes result, cursor)
  | .readAvailable offset length =>
    match s.format with
    | .binary _ =>
      let (result, cursor) := s.readAvailable offset length cursor
      (.bytes result, cursor)
    | .stream _ => (.refused, cursor)
  | .seek offset =>
    let (result, cursor) := s.seek offset cursor
    (.moved result, cursor)
  | .decode frames room =>
    let (sound, cursor) := s.decode frames room cursor
    (.sound sound, cursor)

/-- The answers of a source at a cursor. -/
def answers (s : Source) (cursor : Nat) (calls : List Call) : List Answer :=
  (perform s.call cursor calls).1

/-- The cursor of a source that has been opened and used. -/
def cursorAfter (s : Source) (past : List Call) : Nat := (perform s.call 0 past).2

/-! ### Sound by the decoder -/

/-- Goes to a disc byte. A place that is refused leaves everything as it was. -/
def seekSound (stream : Pcm.Stream) (offset : Nat) (d : Pcm.Decoder) :
    Except SourceError Unit × Pcm.Decoder :=
  let frame := stream.frameAt (Pcm.Stream.millisecond offset)
  if stream.block = 0 then (.error .unseekable, d)
  else if frame ≤ stream.size / stream.block then (.ok (), .goneTo stream frame)
  else (.error .outOfRange, d)

/-- Decodes at most `frames` sample frames, as far as they fit into `room` bytes. -/
def decodeSound (stream : Pcm.Stream) (contents : Contents) (frames room : Nat) (d : Pcm.Decoder) :
    Sound × Pcm.Decoder :=
  let (samples, d) := d.fill stream contents (min (frames * stream.channels) (room / 2))
  ({ frames := samples.length / stream.channels, bytes := Sample.write samples }, d)

/-- Reads exactly `length` bytes from a disc byte on, with silence behind the end of the sound. -/
def readSound (stream : Pcm.Stream) (contents : Contents) (offset length : Nat)
    (d : Pcm.Decoder) : Except SourceError (List UInt8) × Pcm.Decoder :=
  match seekSound stream offset d with
  | (.error e, d) => (.error e, d)
  | (.ok (), d) =>
    let size := max stream.channels 1 * 2
    let (sound, d) := decodeSound stream contents (length / size) length d
    if sound.frames = 0 then (.error (.noData offset), d)
    else
      let kept := sound.bytes.take (sound.frames * size)
      (.ok (kept ++ List.replicate (length - kept.length) 0), d)

/-! ### States -/

/-- What an opened file keeps between two calls. -/
inductive State where
  /-- Where a file of sectors is read next. -/
  | sectors (position : Nat)
  /-- The decoder of a stream. -/
  | sound (stream : Pcm.Stream) (decoder : Pcm.Decoder)

/-- The state of a source that has just been opened. -/
def opened (s : Source) : State :=
  match s.format with
  | .binary _ => .sectors 0
  | .stream stream => .sound stream {}

/-- What a source in a state answers, and the state behind it. -/
def State.call (s : Source) : State → Call → Answer × State
  | .sectors position, call =>
    let (answer, position) := s.call position call
    (answer, .sectors position)
  | .sound stream d, .read offset length =>
    let (result, d) := readSound stream (s.contents.getD .empty) offset length d
    (.bytes result, .sound stream d)
  | .sound stream d, .readAvailable _ _ => (.refused, .sound stream d)
  | .sound stream d, .seek offset =>
    let (result, d) := seekSound stream offset d
    (.moved result, .sound stream d)
  | .sound stream d, .decode frames room =>
    let (heard, d) := decodeSound stream (s.contents.getD .empty) frames room d
    (.sound heard, .sound stream d)

/-- The answers of a source in a state. -/
def State.answers (s : Source) (state : State) (calls : List Call) : List Answer :=
  (perform (State.call s) state calls).1

/-- The state of a source that has been opened and used. -/
def after (s : Source) (past : List Call) : State := (perform (State.call s) s.opened past).2

theorem perform_cons {σ : Type} (step : σ → Call → Answer × σ) (state : σ) (call : Call)
    (calls : List Call) :
    perform step state (call :: calls) =
      ((step state call).1 :: (perform step (step state call).2 calls).1,
        (perform step (step state call).2 calls).2) := rfl

end CompactDisc.Source
